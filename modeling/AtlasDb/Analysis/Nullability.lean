import AtlasDb.Core.Regex
import AtlasDb.Parsing.Ast
import Mathlib.Data.Char
import Mathlib.Data.List.Lex

/-!
# Definite nullability

`analysis/nullability.py: DefiniteNullabilityAnalyzer`, by the facts it returns. Fact ids, evidence,
reasons and the findings on `IS NULL` predicates are left out.
-/

namespace AtlasDb.Analysis

open Core Parsing

inductive NullabilityStatus where
  | definitelyNonNull
  | possiblyNull
  | definitelyNull
  | unknown
deriving DecidableEq

/-- `DeclaredSymbolType`. The parser gives parameters no default. -/
structure DeclaredSymbolType where
  symbolName : String
  parameterMode : Option ParameterMode := none
  defaultExpression : Option String := none
  sourceRef : NodeRef
  local_default : parameterMode ≠ none → defaultExpression = none := by simp
deriving DecidableEq

def DeclaredSymbolType.symbol (d : DeclaredSymbolType) : String := Text.upperString d.symbolName

/-- `QueryBindingFact`, by the fields the analyzers read. -/
structure QueryBindingFact where
  sourceNodeRef : NodeRef
  querySummaryRef : Option String
  targetSymbol : String
  projectionExpression : Option String
deriving DecidableEq

/-! ## The shape of an expression -/

section Shapes

open Regex

/-- `" ".join(str(expression or "").strip().split())` -/
def collapsed (expression : Option String) : List Char :=
  List.intercalate [' '] (Text.split (expression.getD "").toList)

def digits : Regex := plus (char Char.isDigit)

/-- A number or a string. -/
def literalPattern : Regex :=
  alt (all [opt (char fun c => c = '-' || c = '+'), digits, opt (seq (char (· = '.')) digits)])
    (all [char (· = '\''), star (alt (lit "''") (char (· ≠ '\''))), char (· = '\'')])

/-- The upper-cased text starts with one of these. -/
def nonNullPrefixes : List String := ["CURRENT ", "NEXT VALUE FOR ", "COALESCE(", "COUNT("]

/-- The symbol with an arithmetic operator after it. -/
def selfArithmetic (symbol : String) : Regex :=
  all [boundary, literal symbol.toList, boundary, star space,
    char fun c => c = '+' || c = '-' || c = '*' || c = '/']

/-- `_expression_status`. -/
def expressionStatus (expression : Option String) (symbol : String) : NullabilityStatus :=
  let text := collapsed expression
  let upper := Text.upper text
  if text = [] then .unknown
  else if upper = "NULL".toList then .definitelyNull
  else if (fullmatch literalPattern text).isSome then .definitelyNonNull
  else if nonNullPrefixes.any fun p => p.toList.isPrefixOf upper then .definitelyNonNull
  else if (search (selfArithmetic symbol) upper).isSome then .definitelyNonNull
  else .possiblyNull

/-- `_query_projection_status`. -/
def queryProjectionStatus (expression : Option String) : NullabilityStatus :=
  let text := Text.upper (collapsed expression)
  if text = [] then .unknown
  else if (matchAt (all [lit "COUNT", star space, char (· = '(')]) ⟨none, text⟩).isSome ∨
      "COALESCE(".toList.isPrefixOf text then .definitelyNonNull
  else if (matchAt (seq (alt (lit "AVG") (alt (lit "SUM") (alt (lit "MAX") (lit "MIN"))))
      (seq (star space) (char (· = '(')))) ⟨none, text⟩).isSome then .possiblyNull
  else if (fullmatch literalPattern text).isSome then .definitelyNonNull
  else .possiblyNull

/-- `_default_status`. -/
def defaultStatus (expression : Option String) : NullabilityStatus :=
  match expression with
  | none => .definitelyNull
  | some text =>
    if Text.upper (Text.strip text.toList) = "NULL".toList then .definitelyNull
    else .definitelyNonNull

end Shapes

/-! ## Definitions and their join -/

/-- An entry of `assignments`: what is defined, where, by what, and its status. -/
structure NullDefinition where
  symbol : String
  nodeRef : NodeRef
  expression : Option String
  status : NullabilityStatus
deriving DecidableEq

/-- The projection bound to the target; a later binding replaces an earlier one. -/
def projectionOf (bindings : List QueryBindingFact) (ref : NodeRef) (symbol : String) :
    Option String :=
  (bindings.reverse.find? fun b => b.sourceNodeRef = ref ∧
    Text.upperString b.targetSymbol = symbol).bind
    QueryBindingFact.projectionExpression

/-- The definitions recorded for one node. -/
def nodeDefinitions (bindings : List QueryBindingFact) (ref : NodeRef) (stmt : Statement) :
    List NullDefinition :=
  (stmt.assignment.toList.map fun b =>
    let symbol := Text.upperString b.targetName
    ⟨symbol, ref, some b.expressionText, expressionStatus (some b.expressionText) symbol⟩) ++
  ((stmt.selectIntoTargets.getD []).map fun target =>
    let symbol := Text.upperString target
    let expression := projectionOf bindings ref symbol
    ⟨symbol, ref, expression, queryProjectionStatus expression⟩) ++
  ((stmt.execute.toList.flatMap DynamicExecuteBinding.intoTargetNames ++
      stmt.fetch.toList.flatMap FetchBinding.targetNames).map fun target =>
    ⟨Text.upperString target, ref, none, .possiblyNull⟩)

def nullDefinitions (ast : ProcedureAst) (bindings : List QueryBindingFact) : List NullDefinition :=
  (statementsOf ast.body).flatMap fun s => nodeDefinitions bindings s.1 s.2

/-- `_join`. -/
def joinNullability (statuses : List NullabilityStatus) : NullabilityStatus :=
  let concrete := statuses.filter (· ≠ .unknown)
  if concrete = [] then .unknown
  else if ∀ s ∈ concrete, s = .definitelyNonNull then .definitelyNonNull
  else if ∀ s ∈ concrete, s = .definitelyNull then .definitelyNull
  else .possiblyNull

/-! ## Facts -/

structure SymbolNullabilityFact where
  symbolName : String
  status : NullabilityStatus
  declarationDefaultRef : NodeRef
  assignmentRefs : List NodeRef
deriving DecidableEq

/-- The fact for a declared symbol. -/
def nullabilityFact (ast : ProcedureAst) (bindings : List QueryBindingFact)
    (d : DeclaredSymbolType) : SymbolNullabilityFact :=
  let values := (nullDefinitions ast bindings).filter (·.symbol = d.symbol)
  { symbolName := d.symbol
    status :=
    joinNullability (defaultStatus d.defaultExpression :: values.map NullDefinition.status)
    declarationDefaultRef := d.sourceRef
    assignmentRefs := values.map NullDefinition.nodeRef }

/-- The facts of `DefiniteNullabilityAnalyzer.analyze`. -/
def analyzeNullability (ast : ProcedureAst) (declared : List DeclaredSymbolType)
    (bindings : List QueryBindingFact) : List SymbolNullabilityFact :=
  (declared.map (nullabilityFact ast bindings)).mergeSort fun a b =>
    decide (a.symbolName.toList ≤ b.symbolName.toList)

example : expressionStatus (some "COALESCE(NULL,  V_X)") "V_Y" = .definitelyNonNull := by
  decide +kernel
example : expressionStatus (some "V_Y + V_X") "V_Y" = .definitelyNonNull := by decide +kernel
example : expressionStatus (some "'it''s'") "V_Y" = .definitelyNonNull := by decide +kernel

/-! ## The join -/

section Join

variable {statuses : List NullabilityStatus} {s : NullabilityStatus}

theorem joinNullability_nonNull (h : joinNullability statuses = .definitelyNonNull)
    (hs : s ∈ statuses) : s = .unknown ∨ s = .definitelyNonNull := by
  unfold joinNullability at h
  dsimp only at h
  split at h
  · cases h
  split at h
  · next hall =>
      by_cases hunknown : s = .unknown
      · exact .inl hunknown
      · exact .inr (hall s (List.mem_filter.mpr ⟨hs, by simpa using hunknown⟩))
  split at h
  · cases h
  · cases h

theorem joinNullability_null (h : joinNullability statuses = .definitelyNull) (hs : s ∈ statuses) :
    s = .unknown ∨ s = .definitelyNull := by
  unfold joinNullability at h
  dsimp only at h
  split at h
  · cases h
  split at h
  · cases h
  split at h
  · next hall =>
      by_cases hunknown : s = .unknown
      · exact .inl hunknown
      · exact .inr (hall s (List.mem_filter.mpr ⟨hs, by simpa using hunknown⟩))
  · cases h

theorem expressionStatus_null {expression : Option String} {symbol : String}
    (h : expressionStatus expression symbol = .definitelyNull) :
    Text.upper (collapsed expression) = "NULL".toList := by
  unfold expressionStatus at h
  dsimp only at h
  split at h
  · cases h
  split at h
  · assumption
  split at h
  · cases h
  split at h
  · cases h
  split at h
  · cases h
  · cases h

theorem queryProjectionStatus_ne_null (expression : Option String) :
    queryProjectionStatus expression ≠ .definitelyNull := by
  unfold queryProjectionStatus
  dsimp only
  intro h
  split at h
  · cases h
  split at h
  · cases h
  split at h
  · cases h
  split at h
  · cases h
  · cases h

theorem queryProjectionStatus_none : queryProjectionStatus none = .unknown := rfl

end Join

/-! ## Recorded definitions -/

section Definitions

variable {bindings : List QueryBindingFact} {ref : NodeRef} {stmt : Statement} {d : NullDefinition}

theorem nodeDefinitions_cases (h : d ∈ nodeDefinitions bindings ref stmt) :
    Text.upperString d.symbol = d.symbol ∧
    ((∃ text, d.expression = some text ∧ d.status = expressionStatus (some text) d.symbol) ∨
      d.status = queryProjectionStatus d.expression ∨ d.status = .possiblyNull) := by
  rcases List.mem_append.mp h with h | h
  · rcases List.mem_append.mp h with h | h
    · obtain ⟨b, -, rfl⟩ := List.mem_map.mp h
      exact ⟨Text.upperString_upperString _, .inl ⟨_, rfl, rfl⟩⟩
    · obtain ⟨target, -, rfl⟩ := List.mem_map.mp h
      exact ⟨Text.upperString_upperString _, .inr (.inl rfl)⟩
  · obtain ⟨target, -, rfl⟩ := List.mem_map.mp h
    exact ⟨Text.upperString_upperString _, .inr (.inr rfl)⟩

theorem nodeDefinitions_nonNull (h : d ∈ nodeDefinitions bindings ref stmt)
    (hstatus : d.status = .definitelyNonNull) : ∃ text, d.expression = some text := by
  rcases (nodeDefinitions_cases h).2 with ⟨text, htext, -⟩ | hquery | hpossibly
  · exact ⟨text, htext⟩
  · cases hexpression : d.expression with
    | none =>
      rw [hexpression, queryProjectionStatus_none, hstatus] at hquery
      cases hquery
    | some text => exact ⟨text, rfl⟩
  · rw [hstatus] at hpossibly
    cases hpossibly

theorem nodeDefinitions_null (h : d ∈ nodeDefinitions bindings ref stmt)
    (hstatus : d.status = .definitelyNull) :
    ∃ text, d.expression = some text ∧ Text.upper (collapsed (some text)) = "NULL".toList := by
  rcases (nodeDefinitions_cases h).2 with ⟨text, htext, hexpression⟩ | hquery | hpossibly
  · exact ⟨text, htext, expressionStatus_null (hexpression ▸ hstatus)⟩
  · exact absurd (hquery ▸ hstatus) (queryProjectionStatus_ne_null _)
  · rw [hstatus] at hpossibly
    cases hpossibly

end Definitions

/-! ## What the fact of a symbol covers -/

section Facts

variable {ast : ProcedureAst} {bindings : List QueryBindingFact} {declared : DeclaredSymbolType}

theorem defaultStatus_ne_unknown (expression : Option String) :
    defaultStatus expression ≠ .unknown := by
  unfold defaultStatus
  cases expression with
  | none => simp
  | some text =>
    dsimp only
    split
    · simp
    · simp

theorem default_of_nonNull
    (h : (nullabilityFact ast bindings declared).status = .definitelyNonNull) :
    defaultStatus declared.defaultExpression = .definitelyNonNull :=
  (joinNullability_nonNull h List.mem_cons_self).resolve_left (defaultStatus_ne_unknown _)

theorem default_of_null (h : (nullabilityFact ast bindings declared).status = .definitelyNull) :
    defaultStatus declared.defaultExpression = .definitelyNull :=
  (joinNullability_null h List.mem_cons_self).resolve_left (defaultStatus_ne_unknown _)

theorem mem_statuses {d : NullDefinition} (hd : d ∈ nullDefinitions ast bindings)
    (hsymbol : d.symbol = declared.symbol) : d.status ∈
      ((nullDefinitions ast bindings).filter (·.symbol = declared.symbol)).map
      NullDefinition.status :=
  List.mem_map_of_mem (List.mem_filter.mpr ⟨hd, decide_eq_true hsymbol⟩)

theorem status_of_nonNull {d : NullDefinition}
    (h : (nullabilityFact ast bindings declared).status = .definitelyNonNull)
    (hd : d ∈ nullDefinitions ast bindings) (hsymbol : d.symbol = declared.symbol) :
    d.status = .unknown ∨ d.status = .definitelyNonNull :=
  joinNullability_nonNull h (List.mem_cons_of_mem _ (mem_statuses hd hsymbol))

theorem status_of_null {d : NullDefinition}
    (h : (nullabilityFact ast bindings declared).status = .definitelyNull)
    (hd : d ∈ nullDefinitions ast bindings) (hsymbol : d.symbol = declared.symbol) :
    d.status = .unknown ∨ d.status = .definitelyNull :=
  joinNullability_null h (List.mem_cons_of_mem _ (mem_statuses hd hsymbol))

end Facts

end AtlasDb.Analysis
