import AtlasDb.Analysis.Models

/-!
# Reaching definitions

`analysis/dataflow.py: ReachingDefinitionAnalysis`. A state is the set of pairs of a symbol and a
statement whose definition of it may reach; the maps of the source never hold an empty set, so this
is the same. States are propagated along edges until nothing changes.
-/

namespace AtlasDb.Analysis

open Core Parsing

/-! ## Definitions -/

inductive DefinitionKind where
  | assignment
  | selectInto
  | fetch
  | executeInto
deriving DecidableEq

structure DefinitionSite where
  symbolName : String
  sourceNodeRef : NodeRef
  expressionText : Option String
  definitionKind : DefinitionKind
deriving DecidableEq

/-- The sites of a list of targets, with the text made of the position from 1. -/
def targetSites (ref : NodeRef) (kind : DefinitionKind) (text : Nat → String)
    (targets : List String) : List DefinitionSite :=
  targets.zipIdx.map fun (target, index) =>
    ⟨Text.upperString target, ref, some (text (index + 1)), kind⟩

/-- `_node_definition_sites`. -/
def nodeDefinitionSites (ref : NodeRef) (stmt : Statement) : List DefinitionSite :=
  (match stmt.assignment with
    | some a => [⟨Text.upperString a.targetName, ref, some a.expressionText, .assignment⟩]
    | none => []) ++
  targetSites ref .selectInto (fun n => "SELECT_INTO_PROJECTION_" ++ toString n)
    (stmt.selectIntoTargets.getD []) ++
  (match stmt.fetch with
    | some f => targetSites ref .fetch
        (fun n => "FETCH_" ++ f.cursorName ++ "_COLUMN_" ++ toString n) f.targetNames
    | none => []) ++
  (match stmt.execute with
    | some e => targetSites ref .executeInto
        (fun n => "EXECUTE_INTO_PROJECTION_" ++ toString n) e.intoTargetNames
    | none => [])

/-- The statements with a node of the graph. -/
def cfgStatements (ast : ProcedureAst) (cfg : ControlFlowGraph) : List (NodeRef × Statement) :=
  (statementsOf ast.body).filter fun s => .ast s.1 ∈ cfg.nodes

/-- `all_definition_sites`. -/
def allDefinitionSites (ast : ProcedureAst) (cfg : ControlFlowGraph) : List DefinitionSite :=
  (cfgStatements ast cfg).flatMap fun s => nodeDefinitionSites s.1 s.2

/-! ## The solver -/

/-- The definitions that may reach. -/
abbrev ReachingState : Type := List (String × NodeRef)

def ReachingState.insertAll (state added : ReachingState) : ReachingState :=
  added.foldl (fun acc d => if d ∈ acc then acc else acc ++ [d]) state

/-- Equality of states as sets. -/
def ReachingState.same (a b : ReachingState) : Bool := a.all (· ∈ b) && b.all (· ∈ a)

/-- `INTO` bindings take effect only when the statement succeeds. -/
def bindingCanFail (kind : StatementKind) : Bool :=
  match kind with
  | .selectInto | .fetchCursor | .execute | .executeImmediate => true
  | _ => false

/-- `_transfer_for_edge`. -/
def transferForEdge (ast : ProcedureAst) (cfg : ControlFlowGraph) (incoming : ReachingState)
    (e : CfgEdge) : ReachingState :=
  match e.source with
  | .ast ref =>
    match (cfgStatements ast cfg).lookup ref with
    | none => incoming
    | some stmt =>
      if e.kind = .handler && bindingCanFail stmt.kind then incoming
      else
        (nodeDefinitionSites ref stmt).foldl
          (fun state d => (d.symbolName, d.sourceNodeRef) ::
            state.filter (·.1 ≠ d.symbolName)) incoming
  | _ => incoming

/-- The state along each edge reached so far. -/
abbrev EdgeStates : Type := List (CfgEdge × ReachingState)

/-- `_merge_predecessor_states`. -/
def mergePredecessorStates (edges : List CfgEdge) (states : EdgeStates) (node : CfgRef) :
    ReachingState :=
  (edges.filter fun e => e.target = node).foldl
    (fun merged e => ReachingState.insertAll merged ((states.lookup e).getD [])) []

structure SolverState where
  inState : List (CfgRef × ReachingState)
  edgeState : EdgeStates
  work : List CfgRef

/-- One successor edge of the node taken from the work list. -/
def propagate (ast : ProcedureAst) (cfg : ControlFlowGraph) (merged : ReachingState)
    (s : SolverState) (e : CfgEdge) : SolverState :=
  let propagated := transferForEdge ast cfg merged e
  if ((s.edgeState.lookup e).map (ReachingState.same propagated)).getD false then s
  else
    { s with
      edgeState := (e, propagated) :: s.edgeState.filter (·.1 ≠ e)
      work := if e.target ∈ s.work then s.work else s.work ++ [e.target] }

/-- The loop of `_solve`. -/
def solveLoop (ast : ProcedureAst) (cfg : ControlFlowGraph) : Nat → SolverState → SolverState
  | 0, s => s
  | fuel + 1, s =>
    match s.work with
    | [] => s
    | current :: work =>
      let merged := mergePredecessorStates cfg.edges s.edgeState current
      let next : SolverState :=
        { s with inState := (current, merged) :: s.inState.filter (·.1 ≠ current), work := work }
      solveLoop ast cfg fuel ((cfg.edges.filter fun e => e.source = current).foldl
        (propagate ast cfg merged) next)

/-- `_solve`. The state of an edge only grows, so each is set at most once more than there are
definitions. -/
def solve (ast : ProcedureAst) (cfg : ControlFlowGraph) : SolverState :=
  solveLoop ast cfg (cfg.edges.length * ((allDefinitionSites ast cfg).length + 1) + 1)
    ⟨[], [], [.entry]⟩

/-- `definitions_at_cfg`. -/
def definitionsAtCfg (s : SolverState) (ref : CfgRef) (symbol : String) : List NodeRef :=
  (((s.inState.lookup ref).getD []).filter (·.1 = Text.upperString symbol)).map Prod.snd

end AtlasDb.Analysis

