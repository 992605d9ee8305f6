import AtlasDb.Analysis.Predicates

/-!
# Obvious contradictions

`analysis/predicates.py: LocalConstraintEvaluator`. A predicate is brought into at most 32 branches
of literals; it is contradictory when every branch holds literals that exclude each other. The upper
case of an atom is that of Unicode; digits are those of ASCII.
-/

namespace AtlasDb.Analysis

open Core Parsing

/-! ## Branches -/

/-- An atomic condition, folded to upper case and single blanks, and whether it is rejected. -/
structure AtomLiteral where
  text : String
  negated : Bool
deriving DecidableEq

abbrev Branch : Type := List AtomLiteral

section

variable [Text.CaseMap]

/-- `" ".join(text.upper().split())` -/
def foldAtom (text : String) : String :=
  String.ofList (List.intercalate [' '] (Text.split (Text.uppercase text.toList)))

def maxBranches : Nat := 32

def unionBranches (children : List (List Branch)) : Option (List Branch) :=
  if children.flatten.length > maxBranches then none else some children.flatten

/-- The branches that take one of each child, starting from those collected so far. -/
def productBranches (result : List Branch) : List (List Branch) → Option (List Branch)
  | [] => some result
  | child :: children =>
    let combined := result.flatMap fun left => child.map (left ++ ·)
    if combined.length > maxBranches then none else productBranches combined children

mutual

/-- `_branches`; `none` when there are too many. -/
def branches : PredicateExpr → Bool → Option (List Branch)
  | .not e, negated => branches e (!negated)
  | .true, negated => some (if negated then [] else [[]])
  | .false, negated => some (if negated then [[]] else [])
  | .atomic text, negated => some [[⟨foldAtom text, negated⟩]]
  | .unknown text, negated => some [[⟨foldAtom text, negated⟩]]
  | .and operands, negated =>
    (branchesOfAll operands negated).bind fun children =>
      if negated then unionBranches children else productBranches [[]] children
  | .or operands, negated =>
    (branchesOfAll operands negated).bind fun children =>
      if negated then productBranches [[]] children else unionBranches children

def branchesOfAll : List PredicateExpr → Bool → Option (List (List Branch))
  | [], _ => some []
  | e :: es, negated =>
    (branches e negated).bind fun b => (branchesOfAll es negated).map fun bs => b :: bs

end

end

/-! ## The shapes of atoms -/

section Shapes

open Regex

/-- `[A-Z_]`, with the letters outside of ASCII that `re.IGNORECASE` takes for one of these. -/
def isSymbolStart (c : Char) : Bool := c.isAlpha || c ∈ ['_', 'İ', 'ı', 'ſ', 'K']

/-- `([A-Z_][A-Z0-9_.$]*)` -/
def symbolShape : Regex :=
  group 1 (seq (char isSymbolStart)
    (star (char fun c => isSymbolStart c || c.isDigit || c = '.' || c = '$')))

/-- `-?\d+(?:\.\d+)?` -/
def numberShape : Regex :=
  all [opt (char (· = '-')), plus (char Char.isDigit),
    opt (seq (char (· = '.')) (plus (char Char.isDigit)))]

/-- `'(?:''|[^'])*'` -/
def stringShape : Regex :=
  all [char (· = '\''), star (alt (lit "''") (char (· ≠ '\''))), char (· = '\'')]

/-- One of the operators, tried in this order. -/
def operatorShape (operators : List String) : Regex :=
  match operators with
  | [] => char fun _ => false
  | [op] => lit op
  | op :: ops => alt (lit op) (operatorShape ops)

def comparisonOperators : List String := ["<=", ">=", "=", "<>", "!=", "<", ">"]

/-- `_comparison` -/
def comparisonShape : Regex :=
  all [symbolShape, star space, group 2 (operatorShape comparisonOperators), star space,
    group 3 numberShape, atEnd]

/-- `_string_equality` -/
def stringEqualityShape : Regex :=
  all [symbolShape, star space, group 2 (operatorShape ["=", "<>", "!="]), star space,
    group 3 stringShape, atEnd]

/-- `_null_test` -/
def nullTestShape : Regex :=
  all [symbolShape, plus space, lit "IS", plus space, group 2 (opt (seq (lit "NOT") (plus space))),
    lit "NULL", atEnd]

/-- `_literal_in` -/
def literalInShape : Regex :=
  all [symbolShape, plus space, opt (seq (lit "NOT") (plus space)), lit "IN", star space,
    char (· = '('),
    plus (all [star space, alt stringShape numberShape, star space, opt (char (· = ','))]),
    char (· = ')'), atEnd]

/-- `_literal_comparison` -/
def literalComparisonShape : Regex :=
  all [alt numberShape stringShape, star space, operatorShape comparisonOperators, star space,
    alt numberShape stringShape, atEnd]

/-- `pattern.match(text)` -/
def matchText (shape : Regex) (text : String) : Option Regex.Match :=
  matchAt shape ⟨none, text.toList⟩

end Shapes

/-- `match.group(1).upper()`, of a text in upper case. -/
def symbolOf (m : Regex.Match) : String := String.ofList (Text.upper (m.group 1))

/-- `Decimal(raw)` -/
def decimalOf (raw : List Char) : Option ℚ :=
  match readLiteral raw with
  | some (.decimal mantissa scale, []) => some (mkRat mantissa (10 ^ scale))
  | _ => none

/-- The groups of a match of `_comparison`. -/
def comparisonOf (text : String) : Option (String × Comparison × ℚ) := do
  let m ← matchText comparisonShape text
  let op ← readComparison (m.group 2)
  let value ← decimalOf (m.group 3)
  return (symbolOf m, op.1, value)

/-- The groups of a match of `_string_equality`: the symbol, whether it is to be equal, and the
literal with its quotes. -/
def stringEqualityOf (text : String) : Option (String × Bool × List Char) :=
  (matchText stringEqualityShape text).map fun m =>
    (symbolOf m, m.group 2 = "=".toList, m.group 3)

/-- The symbol of a match of `_null_test`, and whether it is to be null. -/
def nullTestOf (text : String) : Option (String × Bool) :=
  (matchText nullTestShape text).map fun m => (symbolOf m, m.group 2 = [])

/-- `_literal_truth` -/
def literalTruth (text : String) : Option Bool := literalConditionTruth (some text)

/-! ## Contradictions in a branch -/

/-- Why a branch is contradictory. -/
inductive Contradiction where
  | sameAtom (text : String)
  | literalFalse (text : String)
  | twoNumbers (symbol : String)
  | twoStrings (symbol : String)
  | nullAndNotNull (symbol : String)
  | equalAndNotEqual (symbol : String)
  | emptyInterval (symbol : String)
  | belowLower (symbol : String)
  | aboveUpper (symbol : String)
deriving DecidableEq

/-- The bounds carry whether they are inclusive. -/
structure NumericRecord where
  equal : Option ℚ := none
  notEqual : List ℚ := []
  lowers : List (ℚ × Bool) := []
  uppers : List (ℚ × Bool) := []
deriving DecidableEq

structure StringRecord where
  equal : Option (List Char) := none
  notEqual : List (List Char) := []
deriving DecidableEq

/-- What the loop over the literals collects, in the order of first insertion. -/
structure BranchRecords where
  nullStates : List (String × List Bool) := []
  numeric : List (String × NumericRecord) := []
  strings : List (String × StringRecord) := []
deriving DecidableEq

/-- Change the entry of a key, inserting it at the end when it is not there. -/
def updateEntry {α : Type} (key : String) (default : α) (f : α → α) :
    List (String × α) → List (String × α)
  | [] => [(key, f default)]
  | (k, a) :: entries =>
    if k = key then (k, f a) :: entries else (k, a) :: updateEntry key default f entries

def NumericRecord.add (op : Comparison) (value : ℚ) (r : NumericRecord) : NumericRecord :=
  match op with
  | .eq => { r with equal := some value }
  | .ne => { r with notEqual := value :: r.notEqual }
  | .gt => { r with lowers := r.lowers ++ [(value, false)] }
  | .ge => { r with lowers := r.lowers ++ [(value, true)] }
  | .lt => { r with uppers := r.uppers ++ [(value, false)] }
  | .le => { r with uppers := r.uppers ++ [(value, true)] }

def StringRecord.add (equal : Bool) (value : List Char) (r : StringRecord) : StringRecord :=
  if equal then { r with equal := some value } else { r with notEqual := value :: r.notEqual }

/-- A positive comparison with a number. -/
def addComparison (symbol : String) (op : Comparison) (value : ℚ) (s : BranchRecords) :
    Except Contradiction BranchRecords :=
  if op = .eq ∧ ((s.numeric.lookup symbol).bind NumericRecord.equal).any (· ≠ value) then
    .error (.twoNumbers symbol)
  else .ok { s with numeric := updateEntry symbol {} (NumericRecord.add op value) s.numeric }

def addString (symbol : String) (equal : Bool) (value : List Char) (s : BranchRecords) :
    Except Contradiction BranchRecords :=
  if equal ∧ ((s.strings.lookup symbol).bind StringRecord.equal).any (· ≠ value) then
    .error (.twoStrings symbol)
  else .ok { s with strings := updateEntry symbol {} (StringRecord.add equal value) s.strings }

/-- One turn of the loop of `_contradiction`. -/
def addLiteral (s : BranchRecords) (l : AtomLiteral) : Except Contradiction BranchRecords :=
  match literalTruth l.text with
  | some value => if value = l.negated then .error (.literalFalse l.text) else .ok s
  | none =>
    match nullTestOf l.text with
    | some (symbol, isNull) =>
      .ok { s with nullStates := updateEntry symbol [] ((isNull != l.negated) :: ·) s.nullStates }
    | none =>
      match comparisonOf l.text, stringEqualityOf l.text, l.negated with
      | some (symbol, op, value), _, false => addComparison symbol op value s
      | none, some (symbol, equal, value), false => addString symbol equal value s
      | _, _, _ => .ok s

/-- `max(lowers, key=lambda item: (item[0], not item[1]))` -/
def greatestLower : List (ℚ × Bool) → Option (ℚ × Bool)
  | [] => none
  | b :: bounds => some (bounds.foldl
      (fun best c => if best.1 < c.1 ∨
        (best.1 = c.1 ∧ best.2 = true ∧ c.2 = false) then c else best) b)

/-- `min(uppers, key=lambda item: (item[0], item[1]))` -/
def leastUpper : List (ℚ × Bool) → Option (ℚ × Bool)
  | [] => none
  | b :: bounds => some (bounds.foldl
      (fun best c => if c.1 < best.1 ∨
        (best.1 = c.1 ∧ best.2 = true ∧ c.2 = false) then c else best) b)

/-- The checks of one numeric record, in order. -/
def numericContradiction (symbol : String) (r : NumericRecord) : Option Contradiction :=
  let lower := greatestLower r.lowers
  let upper := leastUpper r.uppers
  if r.equal.any (· ∈ r.notEqual) then some (.equalAndNotEqual symbol)
  else if lower.any fun l => upper.any fun u =>
      l.1 > u.1 || (l.1 = u.1 && !(l.2 && u.2)) then some (.emptyInterval symbol)
  else if r.equal.any fun v => lower.any fun l => v < l.1 || (v = l.1 && !l.2) then
    some (.belowLower symbol)
  else if r.equal.any fun v => upper.any fun u => v > u.1 || (v = u.1 && !u.2) then
    some (.aboveUpper symbol)
  else none

def stringContradiction (symbol : String) (r : StringRecord) : Option Contradiction :=
  if r.equal.any (· ∈ r.notEqual) then some (.equalAndNotEqual symbol) else none

/-- The checks after the loop. -/
def recordsContradiction (s : BranchRecords) : Option Contradiction :=
  (s.nullStates.findSome? fun (symbol, states) =>
    if true ∈ states ∧ false ∈ states then some (.nullAndNotNull symbol) else none).or <|
  (s.numeric.findSome? fun (symbol, r) => numericContradiction symbol r).or <|
  s.strings.findSome? fun (symbol, r) => stringContradiction symbol r

/-- `sorted(overlap)[0]`, if there is an overlap. -/
def overlapOf (b : Branch) : Option String :=
  let positive := (b.filter fun l => !l.negated).map AtomLiteral.text
  let negative := (b.filter AtomLiteral.negated).map AtomLiteral.text
  ((positive.filter (· ∈ negative)).insertionSort fun x y => x.toList ≤ y.toList).head?

/-- `_contradiction`. -/
def contradictionOf (b : Branch) : Option Contradiction :=
  match overlapOf b with
  | some text => some (.sameAtom text)
  | none =>
    match b.foldlM addLiteral ({} : BranchRecords) with
    | .error reason => some reason
    | .ok s => recordsContradiction s

/-! ## The assessment -/

inductive ConstraintStatus where
  | obviousContradiction
  | unsupportedConstraintTheory
  | configurationAssumptionRequired
  | dataStateAssumptionRequired
  | syntacticallyConsistent
deriving DecidableEq

def environmentKeywords : List String :=
  ["CURRENT TIMESTAMP", "CURRENT DATE", "CURRENT TIME", "SESSION_USER", "CURRENT_SCHEMA",
   "CURRENT_PATH"]

/-- The atom depends on rows of the database. -/
def readsData (text : String) : Bool :=
  Text.containsList "EXISTS".toList text.toList || Text.containsList "SELECT ".toList text.toList

/-- The atom has one of the shapes of the local theory. -/
def isInterpreted (text : String) : Bool :=
  (matchText comparisonShape text).isSome || (matchText stringEqualityShape text).isSome ||
    (matchText nullTestShape text).isSome || (matchText literalInShape text).isSome ||
    (matchText literalComparisonShape text).isSome

/-- `_classify_branch`, by the status. -/
def classifyBranch (b : Branch) : ConstraintStatus :=
  let texts := b.map AtomLiteral.text
  if texts.any fun text => text = "" || !(readsData text || isInterpreted text) then
    .unsupportedConstraintTheory
  else if texts.any fun text => environmentKeywords.any fun keyword =>
      Text.containsList keyword.toList text.toList then .configurationAssumptionRequired
  else if texts.any readsData then .dataStateAssumptionRequired
  else .syntacticallyConsistent

/-- The order of `max(surviving, key=precedence)`. -/
def statusPrecedence : ConstraintStatus → Nat
  | .unsupportedConstraintTheory => 5
  | .configurationAssumptionRequired => 4
  | .dataStateAssumptionRequired => 3
  | .syntacticallyConsistent => 1
  | .obviousContradiction => 0

/-- `assess`, by the status. -/
def assess [Text.CaseMap] (root : PredicateExpr) : ConstraintStatus :=
  match branches root false with
  | none => .unsupportedConstraintTheory
  | some bs =>
    match (bs.filter fun b => (contradictionOf b).isNone).map classifyBranch with
    | [] => .obviousContradiction
    | first :: rest => rest.foldl
        (fun best s => if statusPrecedence best < statusPrecedence s then s else best) first

end AtlasDb.Analysis
