import AtlasDb.Analysis.DynamicSql
import AtlasDb.Analysis.Slicing

/-!
# Reconstruction of dynamic statements

`analysis/dynamic_sql.py: DynamicSqlAnalyzer`, from the expression of a dynamic statement to the
sites and variants it reports. A variable stands for the values of all definitions that reach the
place where it is read; what cannot be evaluated becomes a placeholder.
-/

namespace AtlasDb.Analysis.DynamicSql

open Core Parsing Lib

/-- A `frozenset` of texts, in order. -/
def sortedSet (values : List String) : List String :=
  values.dedup.insertionSort fun a b => a.toList ≤ b.toList

/-! ## Expressions -/

/-- `_ValueVariant`. -/
structure ValueVariant where
  text : String
  placeholders : List String
  sourceRefs : List NodeRef
deriving DecidableEq

/-- `_render_tokens`, after the parts read so far. -/
def renderFrom (rendered : List Char) : List Token → List Char
  | [] => rendered
  | t :: ts =>
    let value := t.value.toList
    let next :=
      if rendered = [] then value
      else if t.value ∈ [",", ")", ";", "."] then rendered ++ value
      else if rendered.getLast? = some '(' ∨ t.value = "(" then rendered ++ value
      else rendered ++ ' ' :: value
    renderFrom next ts

def renderTokens (tokens : List Token) : String :=
  String.ofList (Text.strip (renderFrom [] tokens))

/-- `_split_concat`, with the group being read first; empty groups are dropped at the end. -/
def concatGroups : Nat → List Token → List (List Token)
  | _, [] => [[]]
  | depth, t :: ts =>
    let depth := if t.value = "(" then depth + 1 else if t.value = ")" then depth - 1 else depth
    let groups := concatGroups depth ts
    if t.value = "||" ∧ depth = 0 then [] :: groups
    else (t :: groups.headD []) :: groups.tail

def splitConcat (tokens : List Token) : List (List Token) :=
  (concatGroups 0 tokens).filter (· ≠ [])

/-- The first parenthesis is closed by the last token or not at all. -/
def balancedOutside : Int → List Token → Bool
  | _, [] => true
  | depth, t :: ts =>
    if t.value = "(" then balancedOutside (depth + 1) ts
    else if t.value = ")" then
      if depth - 1 = 0 ∧ ts ≠ [] then false else balancedOutside (depth - 1) ts
    else balancedOutside depth ts

/-- `_strip_outer_parentheses`; every turn drops two tokens. -/
def stripOuter : Nat → List Token → List Token
  | 0, tokens => tokens
  | fuel + 1, tokens =>
    if 2 ≤ tokens.length ∧ tokens.head?.map Token.value = some "(" ∧
        tokens.getLast?.map Token.value = some ")" ∧ balancedOutside 0 tokens then
      stripOuter fuel (tokens.drop 1).dropLast
    else tokens

def stripOuterParentheses (tokens : List Token) : List Token := stripOuter tokens.length tokens

/-- `.replace("''", "'")`. -/
def undoubleQuotes : List Char → List Char
  | [] => []
  | '\'' :: '\'' :: cs => '\'' :: undoubleQuotes cs
  | c :: cs => c :: undoubleQuotes cs

/-- `_decode_string`. -/
def decodeString (raw : String) : String :=
  if 2 ≤ raw.toList.length ∧ raw.toList.head? = some '\'' ∧ raw.toList.getLast? = some '\'' then
    String.ofList (undoubleQuotes (raw.toList.drop 1).dropLast)
  else raw

/-- The expression after `DEFAULT` of a declaration. -/
def defaultExpression (text : String) : Option String :=
  let tokens := (scan text).tokens
  if tokens.length < 3 ∨ tokens.head?.map Token.upper ≠ some "DECLARE" then none
  else
    match tokens.findIdx? (·.upper = "DEFAULT") with
    | none => none
    | some index =>
      if tokens.length ≤ index + 1 then none
      else some (String.ofList (((renderTokens (tokens.drop (index + 1))).toList.reverse.dropWhile
        (· = ';')).reverse))

/-- `_definition_expression`. -/
def definitionExpression (stmt : Statement) : Option String :=
  match stmt.assignment with
  | some binding => some binding.expressionText
  | none => if stmt.kind = .declareVariable then defaultExpression stmt.text else none

/-! ## Values -/

def before (a b : ValueVariant) : Bool :=
  a.text.toList < b.text.toList || (a.text = b.text &&
    decide (a.placeholders.map String.toList ≤ b.placeholders.map String.toList))

/-- One step of `_dedupe_values`. -/
def addValue (values : List ValueVariant) (value : ValueVariant) : List ValueVariant :=
  if values.any fun v => v.text = value.text ∧ v.placeholders = value.placeholders then
    values.map fun v =>
      if v.text = value.text ∧ v.placeholders = value.placeholders then
        { v with sourceRefs := sortedSet (v.sourceRefs ++ value.sourceRefs) }
      else v
  else values ++ [value]

/-- `_dedupe_values`. -/
def dedupeValues (values : List ValueVariant) : List ValueVariant :=
  (values.foldl addValue []).insertionSort fun a b => before a b

/-- `f"${{{name}}}"`, the value of a name that is not known. -/
def placeholderValue (name : String) : ValueVariant :=
  ⟨"$\x7b" ++ name ++ "\x7d", [name], []⟩

/-- `f"EXPR_{hashlib.sha256(…).hexdigest()[:8]}"`. -/
def expressionName (expression : String) : String :=
  "EXPR_" ++ String.ofList ((Sha256.hexdigest (utf8 expression.toList)).take 8)

/-- `itertools.product`, the last alternative fastest. -/
def combinations {α : Type} : List (List α) → List (List α)
  | [] => [[]]
  | values :: rest => values.flatMap fun v => (combinations rest).map (v :: ·)

def maxVariants : Nat := 10

def joinValues (values : List ValueVariant) : ValueVariant :=
  ⟨String.join (values.map ValueVariant.text), sortedSet (values.flatMap ValueVariant.placeholders),
    sortedSet (values.flatMap ValueVariant.sourceRefs)⟩

/-- What the evaluation reads of a procedure: its statements, and the definitions of a variable that
reach a statement, sorted. -/
structure Definitions where
  statement : NodeRef → Option Statement
  reaching : NodeRef → String → List NodeRef

/-- The definitions of a variable are evaluated one by one. `eval` evaluates an expression at a
statement. -/
def definitionValues (d : Definitions) (eval : String → NodeRef → List ValueVariant × Bool)
    (refs : List NodeRef) : List ValueVariant × Bool :=
  let results := refs.filterMap fun ref =>
    ((d.statement ref).bind definitionExpression).map fun expression =>
      let (values, exceeded) := eval expression ref
      (values.map fun v => { v with sourceRefs := sortedSet (v.sourceRefs ++ [ref]) }, exceeded)
  (results.flatMap Prod.fst, results.any Prod.snd)

/-- `_eval_atom`. `eval` evaluates an expression one level deeper, with more names visited. -/
def evalAtom (d : Definitions)
    (eval : String → NodeRef → List (NodeRef × String) → List ValueVariant × Bool)
    (group : List Token) (place : NodeRef) (visited : List (NodeRef × String)) :
    List ValueVariant × Bool :=
  let tokens := stripOuterParentheses group
  match tokens with
  | [t] =>
    match t.kind with
    | .string => ([⟨decodeString t.value, [], []⟩], false)
    | .number => ([⟨t.value, [], []⟩], false)
    | .symbol => ([placeholderValue (expressionName (renderTokens tokens))], false)
    | .word | .quotedIdentifier =>
      let refs := d.reaching place t.name
      if refs ≠ [] ∧ (place, t.name) ∉ visited then
        let (values, exceeded) := definitionValues d
          (fun expression ref => eval expression ref ((place, t.name) :: visited)) refs
        if values ≠ [] then (dedupeValues values, exceeded)
        else ([placeholderValue t.name], false)
      else ([placeholderValue t.name], false)
  | _ => ([placeholderValue (expressionName (renderTokens tokens))], false)

/-- `_eval_expression`, with the levels that are left of `MAX_EVAL_DEPTH`. -/
def evalExpression (d : Definitions) :
    Nat → String → NodeRef → List (NodeRef × String) → List ValueVariant × Bool
  | 0, expression, _, _ => ([placeholderValue (expressionName expression)], false)
  | levels + 1, expression, place, visited =>
    let results := (splitConcat (scan expression).tokens).map fun group =>
      evalAtom d (evalExpression d levels) group place visited
    let alternatives := results.map Prod.fst
    let exceeded := results.any Prod.snd
    if alternatives = [] then ([], false)
    else if alternatives.any List.isEmpty then ([], exceeded)
    else
      (dedupeValues (((combinations alternatives).take maxVariants).map joinValues),
        exceeded || decide (maxVariants < (alternatives.map List.length).prod))

def maxEvalDepth : Nat := 12

/-! ## Variants -/

/-- The word a text begins with, in capitals. -/
def leadingWord (text : List Char) : List Char :=
  Text.upper ((text.dropWhile Text.isSpace).takeWhile Regex.isWordChar)

/-- `_statement_kind`. -/
def statementKind (text : List Char) : DynamicSqlStatementKind :=
  match String.ofList (leadingWord text) with
  | "SELECT" => .select
  | "INSERT" => .insert
  | "UPDATE" => .update
  | "DELETE" => .delete
  | "MERGE" => .merge
  | "CALL" => .call
  | "VALUES" => .values
  | _ => .unknown

section Patterns

open Regex

/-- `[^\s(,;]+`, as group 1. -/
def objectName : Regex :=
  group 1 (plus (char fun c => !(Text.isSpace c || c = '(' || c = ',' || c = ';')))

/-- `_extract_call_target`. -/
def extractCallTarget (text : List Char) : Option String :=
  (search (all [boundary, lit "CALL", plus space, objectName]) text).map nameOf

/-- The patterns of `_extract_relations` with the roles of what they find. -/
def relationPatterns (kind : DynamicSqlStatementKind) : List (Regex × String) :=
  let target := match kind with
    | .insert =>
      [(all [boundary, lit "INSERT", plus space, lit "INTO", plus space, objectName], "TARGET")]
    | .update => [(all [boundary, lit "UPDATE", plus space, objectName], "TARGET")]
    | .delete =>
      [(all [boundary, lit "DELETE", plus space, lit "FROM", plus space, objectName], "TARGET")]
    | .merge =>
      [(all [boundary, lit "MERGE", plus space, lit "INTO", plus space, objectName], "TARGET")]
    | _ => []
  let sources :=
    if kind ∈ [.select, .insert, .update, .merge] then
      [(all [boundary, lit "FROM", plus space, objectName], "SOURCE"),
        (all [boundary, lit "JOIN", plus space, objectName], "SOURCE"),
        (all [boundary, lit "USING", plus space, objectName], "SOURCE")]
    else []
  target ++ sources

/-- `_extract_relations`: the relations with their roles. -/
def extractRelations (text : List Char) (kind : DynamicSqlStatementKind) : List (String × String) :=
  ((relationPatterns kind).flatMap fun (pattern, role) =>
    (findIter pattern text).map fun m => (nameOf m, role)).dedup.filter fun (name, _) =>
      name ≠ "SELECT" ∧ name ≠ "VALUES"

/-- `_structure_placeholder`. -/
def structurePlaceholder (text : List Char) : Bool :=
  let marker := all [char (· = '$'), char (· = '\x7b')]
  let heads := (alt (lit "FROM") (alt (lit "JOIN") (alt (lit "UPDATE") (alt (lit "INTO")
    (alt (all [lit "MERGE", plus space, lit "INTO"]) (lit "CALL"))))))
  (search (all [boundary, heads, plus space, marker]) text).isSome ||
    (search (all [atStart, star space, marker]) text).isSome

end Patterns

/-- One turn of `_build_variants`. -/
def buildVariant (value : ValueVariant) : DynamicSqlVariant :=
  let sql := Text.strip value.text.toList
  let kind := statementKind sql
  { templateText := String.ofList sql
    concreteSql := if value.placeholders = [] then some (String.ofList sql) else none
    placeholderNames := value.placeholders
    statementKind := kind
    callTarget := if kind = .call then extractCallTarget sql else none
    sourceDefinitionRefs := value.sourceRefs }

/-- `_build_variants`. -/
def buildVariants (values : List ValueVariant) : List DynamicSqlVariant :=
  (values.map buildVariant).dedup

/-- `_resolution_status`. -/
def resolutionStatus (variants : List DynamicSqlVariant) (exceeded : Bool) :
    DynamicSqlResolutionStatus :=
  if exceeded then .dynamicVariantBudgetExceeded
  else if variants = [] then .unresolvedDynamicSql
  else if variants.all fun v => v.statementKind ≠ .unknown then
    if variants.all fun v => v.placeholderNames = [] then
      if variants.length = 1 then .staticallyReconstructed else .enumerableVariants
    else if variants.all fun v => !structurePlaceholder v.templateText.toList then
      .partiallyReconstructed
    else .runtimeCaptureRequired
  else .runtimeCaptureRequired

/-- The name holds a placeholder. -/
def unresolvedName (name : String) : Bool := Text.containsList ['$', '\x7b'] name.toList

/-- `_relation_resolutions` ends with `UNRESOLVED_DYNAMIC_IDENTIFIER`. -/
def relationsUnresolved (variants : List DynamicSqlVariant) : Bool :=
  let roles := fun v : DynamicSqlVariant => extractRelations v.templateText.toList v.statementKind
  (variants.any fun v => roles v ≠ []) &&
    variants.any fun v => (structurePlaceholder v.templateText.toList && decide (roles v = [])) ||
      (roles v).any fun role => unresolvedName role.1

/-- `_call_resolutions` ends with `UNRESOLVED_DYNAMIC_IDENTIFIER`. -/
def callsUnresolved (variants : List DynamicSqlVariant) : Bool :=
  variants.any fun v => v.statementKind = .call && (v.callTarget.map unresolvedName).getD true

/-- The status of a site: an unknown identifier asks for a capture at run time. -/
def siteStatus (variants : List DynamicSqlVariant) (exceeded : Bool) : DynamicSqlResolutionStatus :=
  let status := resolutionStatus variants exceeded
  if status = .partiallyReconstructed ∧
    (relationsUnresolved variants ∨ callsUnresolved variants) then
    .runtimeCaptureRequired
  else status

/-! ## Sites -/

/-- The definitions of a procedure, and the `PREPARE`s of a name that reach a statement. -/
structure Analyzer extends Definitions where
  prepared : NodeRef → String → List NodeRef

/-- `prepared_defs` of the state before a node. -/
def preparedDefs (cfg : ControlFlowGraph) (incoming : CfgRef → Option (Finset FlowFact))
    (node : NodeRef) (name : String) : Finset NodeRef :=
  if .ast node ∈ cfg.nodes then
    ((incoming (.ast node)).getD ∅).biUnion fun fact =>
      match fact with
      | .preparedDef other ref => if other = name then {ref} else ∅
      | .variableDef _ _ => ∅
  else ∅

/-- The references of a set, sorted. -/
def sortedRefs (refs : Finset NodeRef) : List NodeRef := refs.sort (· ≤ ·)

def analyzerOf (ast : ProcedureAst) (cfg : ControlFlowGraph) : Analyzer :=
  let incoming := (dynamicDefinitions ast cfg).solveFlow.incoming
  { statement := fun ref => (statementsOf ast.body).lookup ref
    reaching := fun ref name => sortedRefs (variableDefs cfg incoming ref name)
    prepared := fun ref name => sortedRefs (preparedDefs cfg incoming ref name) }

/-- `_values_for_execute`. -/
def valuesForExecute (a : Analyzer) (ref : NodeRef) (binding : DynamicExecuteBinding) :
    List ValueVariant × Bool :=
  match binding.executionKind with
  | .immediate =>
    evalExpression a.toDefinitions maxEvalDepth (binding.sourceExpression.getD "") ref []
  | .prepared =>
    let results := (a.prepared ref (binding.statementName.getD "")).filterMap fun prepareRef =>
      ((a.statement prepareRef).bind Statement.prepare).map fun prepare =>
        evalExpression a.toDefinitions maxEvalDepth prepare.sourceExpression prepareRef []
    (dedupeValues (results.flatMap Prod.fst), results.any Prod.snd)

/-- The site of an `EXECUTE` or `EXECUTE IMMEDIATE`; without a binding it is unresolved. -/
def dynamicSite (a : Analyzer) (ref : NodeRef) (stmt : Statement) : DynamicSqlSite :=
  match stmt.execute with
  | none => ⟨ref, .unresolvedDynamicSql, []⟩
  | some binding =>
    let (values, exceeded) := valuesForExecute a ref binding
    let variants := buildVariants values
    ⟨ref, siteStatus variants exceeded, variants⟩

def isExecute (stmt : Statement) : Bool := stmt.kind = .execute || stmt.kind = .executeImmediate

/-- The sites of `DynamicSqlAnalyzer.analyze`, in the order of the statements. -/
def dynamicSites (ast : ProcedureAst) (cfg : ControlFlowGraph) : List DynamicSqlSite :=
  ((statementsOf ast.body).filter fun s => isExecute s.2).map fun s =>
    dynamicSite (analyzerOf ast cfg) s.1 s.2

/-- Its variants. -/
def dynamicVariants (ast : ProcedureAst) (cfg : ControlFlowGraph) : List DynamicSqlVariant :=
  ((dynamicSites ast cfg).flatMap DynamicSqlSite.variantRefs).dedup

end AtlasDb.Analysis.DynamicSql
