import AtlasDb.Analysis.Bundles
import AtlasDb.Parsing.Lexer
import Mathlib.Data.Rat.Defs

/-!
# Predicates of branches

`analysis/predicates.py`: the Boolean shell of a condition (`_BooleanExpressionParser`), the
predicate of a control region (`PredicateAnalysisBuilder`) and the search for obvious contradictions
(`LocalConstraintEvaluator`). The nodes of a predicate graph are named by digests of their content,
so the graph is the expression it was made of.
-/

namespace AtlasDb.Analysis

open Core Parsing

/-! ## Expressions -/

inductive PredicateExpr where
  | atomic (text : String)
  | unknown (text : String)
  | true
  | false
  | not (operand : PredicateExpr)
  | and (operands : List PredicateExpr)
  | or (operands : List PredicateExpr)

namespace PredicateExpr

/-- The operands an expression brings into an `AND`. -/
def conjuncts : PredicateExpr → List PredicateExpr
  | and operands => operands
  | e => [e]

def disjuncts : PredicateExpr → List PredicateExpr
  | or operands => operands
  | e => [e]

/-- `_combine` with `AND`. -/
def combineAnd (values : List PredicateExpr) : PredicateExpr :=
  match values.flatMap conjuncts with
  | [e] => e
  | operands => and operands

/-- `_combine` with `OR`. -/
def combineOr (values : List PredicateExpr) : PredicateExpr :=
  match values.flatMap disjuncts with
  | [e] => e
  | operands => or operands

end PredicateExpr

/-! ## The Boolean shell parser -/

/-- `re.sub(r"\s+([,.)])", r"\1", text)` -/
def dropSpaceBefore : List Char → List Char
  | [] => []
  | c :: cs =>
    let rest := dropSpaceBefore cs
    if Text.isSpace c then
      match cs.dropWhile Text.isSpace with
      | d :: _ => if d = ',' ∨ d = '.' ∨ d = ')' then rest else c :: rest
      | [] => c :: rest
    else c :: rest

/-- `re.sub(r"([(])\s+", r"\1", text)`; the flag is set after an opening parenthesis. -/
def dropSpaceAfter : Bool → List Char → List Char
  | _, [] => []
  | opened, c :: cs =>
    if opened && Text.isSpace c then dropSpaceAfter opened cs else c :: dropSpaceAfter (c = '(') cs

/-- `re.sub(r"\s+\.\s+", ".", text)`, with fuel for the characters left. -/
def joinAtPoint : Nat → List Char → List Char
  | 0, cs => cs
  | _ + 1, [] => []
  | fuel + 1, c :: cs =>
    if Text.isSpace c then
      match cs.dropWhile Text.isSpace with
      | '.' :: d :: rest =>
        if Text.isSpace d then '.' :: joinAtPoint fuel (rest.dropWhile Text.isSpace)
        else c :: joinAtPoint fuel cs
      | _ => c :: joinAtPoint fuel cs
    else c :: joinAtPoint fuel cs

/-- `_render`. -/
def renderTokens (tokens : List Token) : String :=
  let text := List.intercalate [' '] (tokens.map fun t => t.value.toList)
  let text := dropSpaceAfter false (dropSpaceBefore text)
  let text := joinAtPoint text.length text
  String.ofList (List.intercalate [' '] (Text.split text))

/-- The loop of `_parse_atom`: how many tokens belong to the atom. -/
def atomLength : Nat → Bool → List Token → Nat
  | _, _, [] => 0
  | depth, pending, t :: ts =>
    if t.value = "(" then atomLength (depth + 1) pending ts + 1
    else if t.value = ")" then
      match depth with
      | 0 => 0
      | depth + 1 => atomLength depth pending ts + 1
    else if depth = 0 then
      if t.upper = "BETWEEN" then atomLength depth true ts + 1
      else if t.upper = "AND" ∧ pending = true then atomLength depth false ts + 1
      else if t.upper = "AND" ∨ t.upper = "OR" then 0
      else atomLength depth pending ts + 1
    else atomLength depth pending ts + 1

/-- `_parse_atom`. -/
def parseAtom (tokens : List Token) : PredicateExpr × List Token :=
  let n := atomLength 0 false tokens
  if n = 0 then (.unknown "", tokens)
  else (.atomic (renderTokens (tokens.take n)), tokens.drop n)

/-- `_is_boolean_group`, from the opening parenthesis on. -/
def isBooleanGroup : Nat → List Token → Bool
  | _, [] => false
  | depth, t :: ts =>
    if t.value = "(" then isBooleanGroup (depth + 1) ts
    else if t.value = ")" then depth = 1 || isBooleanGroup (depth - 1) ts
    else (depth = 1 && (t.upper = "AND" || t.upper = "OR")) || isBooleanGroup depth ts

def peekUpper (tokens : List Token) : Option String := tokens.head?.map Token.upper

def peekValue (tokens : List Token) : Option String := tokens.head?.map Token.value

mutual

/-- `_parse_or`. -/
def parseOr : Nat → List Token → PredicateExpr × List Token
  | 0, tokens => (.unknown "", tokens)
  | fuel + 1, tokens =>
    let first := parseAnd fuel tokens
    let rest := parseOrRest fuel first.2
    (.combineOr (first.1 :: rest.1), rest.2)

def parseOrRest : Nat → List Token → List PredicateExpr × List Token
  | 0, tokens => ([], tokens)
  | fuel + 1, tokens =>
    if peekUpper tokens = some "OR" then
      let next := parseAnd fuel tokens.tail
      let rest := parseOrRest fuel next.2
      (next.1 :: rest.1, rest.2)
    else ([], tokens)

/-- `_parse_and`. -/
def parseAnd : Nat → List Token → PredicateExpr × List Token
  | 0, tokens => (.unknown "", tokens)
  | fuel + 1, tokens =>
    let first := parseNot fuel tokens
    let rest := parseAndRest fuel first.2
    (.combineAnd (first.1 :: rest.1), rest.2)

def parseAndRest : Nat → List Token → List PredicateExpr × List Token
  | 0, tokens => ([], tokens)
  | fuel + 1, tokens =>
    if peekUpper tokens = some "AND" then
      let next := parseNot fuel tokens.tail
      let rest := parseAndRest fuel next.2
      (next.1 :: rest.1, rest.2)
    else ([], tokens)

/-- `_parse_not`. -/
def parseNot : Nat → List Token → PredicateExpr × List Token
  | 0, tokens => (.unknown "", tokens)
  | fuel + 1, tokens =>
    if peekUpper tokens = some "NOT" then
      let operand := parseNot fuel tokens.tail
      (.not operand.1, operand.2)
    else if peekValue tokens = some "(" ∧ isBooleanGroup 0 tokens = true then
      let group := parseOr fuel tokens.tail
      (group.1, if peekValue group.2 = some ")" then group.2.tail else group.2)
    else parseAtom tokens

end

/-- Enough for every token: between two uses of fuel for one token there are at most three calls. -/
def parserFuel (tokens : List Token) : Nat := 3 * tokens.length + 3

/-- `_BooleanExpressionParser.parse`. -/
def parseTokens (tokens : List Token) : PredicateExpr :=
  if tokens = [] then .true
  else
    let result := parseOr (parserFuel tokens) tokens
    if result.2 = [] then result.1 else .atomic (renderTokens tokens)

/-- `PredicateAnalysisBuilder._parse`. -/
def parsePredicate (text : String) : PredicateExpr := parseTokens (scan text).tokens

/-! ## The predicate of a region -/

/-- A condition text that is there. -/
def IfArm.condition? (arm : IfArm) : Option String := arm.conditionText.filter (· ≠ "")

/-- `_expression_for_region` for an arm of an IF: the earlier conditions negated, then its own. -/
def armPredicate (arms : List IfArm) (index : Nat) : Option PredicateExpr :=
  match arms[index]? with
  | none => none
  | some current =>
    let obligations := ((arms.take index).filterMap IfArm.condition?).map
        (fun text => .not (parsePredicate text)) ++
      (IfArm.condition? current).toList.map parsePredicate
    some (if obligations = [] then .true else .combineAnd obligations)

/-- `_expression_for_region` for a loop. -/
def loopPredicate (region : LoopRegion) : Option PredicateExpr :=
  (region.conditionText.filter (· ≠ "")).map parsePredicate

mutual

/-- The IF regions of a subtree with their arms, in the order of the table. -/
def ifRegions : Node → List (NodeRef × List Arm)
  | .simple _ _ => []
  | .compound _ _ _ body => ifRegionsOf body
  | .ifRegion id arms => (id, arms) :: ifRegionsOfArms arms
  | .loop _ _ body => ifRegionsOf body
  | .handler _ _ body => ifRegionsOf body

def ifRegionsOf : List Node → List (NodeRef × List Arm)
  | [] => []
  | n :: ns => ifRegions n ++ ifRegionsOf ns

def ifRegionsOfArms : List Arm → List (NodeRef × List Arm)
  | [] => []
  | .mk _ body :: arms => ifRegionsOf body ++ ifRegionsOfArms arms

end

mutual

/-- The loops of a subtree, in the order of the table. -/
def loopRegions : Node → List (NodeRef × LoopRegion)
  | .simple _ _ => []
  | .compound _ _ _ body => loopRegionsOf body
  | .ifRegion _ arms => loopRegionsOfArms arms
  | .loop id region body => (id, region) :: loopRegionsOf body
  | .handler _ _ body => loopRegionsOf body

def loopRegionsOf : List Node → List (NodeRef × LoopRegion)
  | [] => []
  | n :: ns => loopRegions n ++ loopRegionsOf ns

def loopRegionsOfArms : List Arm → List (NodeRef × LoopRegion)
  | [] => []
  | .mk _ body :: arms => loopRegionsOf body ++ loopRegionsOfArms arms

end

/-- `_expression_for_region`: of the arm or loop the region names, and of no other region. -/
def regionPredicate (ast : ProcedureAst) : ControlRegion → Option PredicateExpr
  | .ifArm id index _ =>
    ((ifRegionsOf ast.body).lookup id).bind fun arms => armPredicate (arms.map Arm.header) index
  | .loopRegion id => ((loopRegionsOf ast.body).lookup id).bind loopPredicate
  | _ => none

end AtlasDb.Analysis
