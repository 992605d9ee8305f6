import AtlasDb.Analysis.Bundles
import AtlasDb.Lib.Flow
import AtlasDb.Parsing.Bindings

/-!
# Definitions for dynamic statements

`analysis/dynamic_sql.py: DynamicSqlAnalyzer._build_reaching_definitions`. The values a dynamic
statement may have are looked up among the assignments and the `PREPARE`s that reach it. The two
maps of a `_FlowState` are one set of facts; the maps of the source never hold an empty set.
-/

namespace AtlasDb.Analysis.DynamicSql

open Core Parsing Lib

/-- An entry of `variable_defs` or of `prepared_defs`, for one definition of the name. -/
inductive FlowFact where
  | variableDef (name : String) (ref : NodeRef)
  | preparedDef (name : String) (ref : NodeRef)
deriving DecidableEq

/-- The name `_declaration_default` returns with an expression. -/
def declarationDefault (text : String) : Option String :=
  let tokens := (scan text).tokens
  if tokens.length < 3 ∨ tokens.head?.map Token.upper ≠ some "DECLARE" then none
  else
    match tokens.findIdx? (·.upper = "DEFAULT") with
    | none => none
    | some index => if tokens.length ≤ index + 1 then none else tokens[1]?.map Token.name

/-- The variables declared with a default. -/
def declaredVariables (ast : ProcedureAst) : List (String × NodeRef) :=
  ((statementsOf ast.body).filter fun s => s.2.kind = .declareVariable).filterMap fun s =>
    (declarationDefault s.2.text).map fun name => (name, s.1)

/-- `initial_variables`: of two declarations of a name the last. -/
def initialVariables (ast : ProcedureAst) : List (String × NodeRef) :=
  (declaredVariables ast).foldl
    (fun entries d => d :: entries.filter fun entry => entry.1 ≠ d.1) []

/-- The definitions a statement makes. -/
def definitionsOf (ref : NodeRef) (stmt : Statement) : List FlowFact :=
  (stmt.assignment.toList.map fun a => .variableDef a.targetName ref) ++
    stmt.prepare.toList.map fun p => .preparedDef p.statementName ref

/-- The entry of the fact is replaced by the statement. -/
def replaces (stmt : Statement) : FlowFact → Bool
  | .variableDef name _ => stmt.assignment.any fun a => a.targetName = name
  | .preparedDef name _ => stmt.prepare.any fun p => p.statementName = name

/-- The problem `_build_reaching_definitions` solves. -/
def dynamicDefinitions (ast : ProcedureAst) (cfg : ControlFlowGraph) :
    FlowProblem CfgRef FlowFact where
  edges := graphEdges cfg
  entry := .entry
  init := ((initialVariables ast).map fun d => FlowFact.variableDef d.1 d.2).toFinset
  gen
    | .ast ref => (((statementsOf ast.body).lookup ref).toList.flatMap (definitionsOf ref)).toFinset
    | _ => ∅
  kills
    | .ast ref, fact => ((statementsOf ast.body).lookup ref).any fun stmt => replaces stmt fact
    | _, _ => false

/-- `variable_defs` of the state before a node. -/
def variableDefs (cfg : ControlFlowGraph) (incoming : CfgRef → Option (Finset FlowFact))
    (node : NodeRef) (name : String) : Finset NodeRef :=
  if .ast node ∈ cfg.nodes then
    ((incoming (.ast node)).getD ∅).biUnion fun fact =>
      match fact with
      | .variableDef other ref => if other = name then {ref} else ∅
      | .preparedDef _ _ => ∅
  else ∅

end AtlasDb.Analysis.DynamicSql
