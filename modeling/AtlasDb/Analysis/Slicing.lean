import AtlasDb.Analysis.Bundles
import AtlasDb.Lib.Flow
import AtlasDb.Parsing.Lexer
import Mathlib.Data.Finset.Sort

/-!
# Backward slices

`analysis/slicing.py: LocalBackwardSlicer`. From the statements of a bundle and the conditions of
its arm, the uses of symbols are followed back to the definitions that reach them, and from those to
the symbols they use. What is kept of the slice is what the trace collects: the nodes, the
parameters, the declarations with a default and the dependency edges. The summaries of queries and
the unresolved influences hang on the nodes and are left out.

`ast.state_access_facts` is an argument of its own; only the fields the slicer reads are kept.
-/

namespace AtlasDb.Analysis.Slicing

open Core Parsing Lib

/-! ## Definitions and uses -/

inductive StateAccessKind where
  | define
  | use
deriving DecidableEq

structure StateAccessFact where
  symbolName : String
  accessKind : StateAccessKind
  sourceNodeRef : NodeRef
deriving DecidableEq

/-- The entry of a node in a map of `_state_maps`. -/
def symbolsAt (kind : StateAccessKind) (facts : List StateAccessFact) (ref : NodeRef) :
    List String :=
  (facts.filter fun f => f.accessKind = kind && f.sourceNodeRef = ref).map fun f =>
    Text.upperString f.symbolName

/-- `_defs_by_node`. -/
def defsByNode (facts : List StateAccessFact) : NodeRef → List String := symbolsAt .define facts

/-- `_uses_by_node`. -/
def usesByNode (facts : List StateAccessFact) : NodeRef → List String := symbolsAt .use facts

/-- `{parameter.name.upper() for parameter in ast.parameters}` -/
def parameterNames (ast : ProcedureAst) : List String :=
  ast.parameters.map fun p => Text.upperString p.name

/-- The nodes of kind `DECLARE_VARIABLE`. -/
def variableDeclarations (ast : ProcedureAst) : List (NodeRef × Statement) :=
  (statementsOf ast.body).filter fun s => s.2.kind = .declareVariable

/-- `_declared_symbols`. -/
def declaredSymbols (ast : ProcedureAst) : List String :=
  parameterNames ast ++
    (variableDeclarations ast).filterMap fun s => (scan s.2.text).tokens[1]?.map Token.upper

/-- The kinds whose text is searched for symbols. -/
def usesItsText (kind : StatementKind) : Bool :=
  match kind with
  | .dml | .call | .execute | .executeImmediate | .signal | .resignal => true
  | _ => false

/-- `token.upper.strip('"')` -/
def strippedUpper (t : Token) : String := String.ofList (Text.stripBy (· = '"') t.upper.toList)

/-- `name in self._symbols or name.startswith(("P_", "V_"))` -/
def looksLikeSymbol (symbols : List String) (name : String) : Bool :=
  name ∈ symbols || "P_".toList.isPrefixOf name.toList || "V_".toList.isPrefixOf name.toList

/-- `_symbols_used_by_node`. -/
def symbolsUsedByNode (ast : ProcedureAst) (facts : List StateAccessFact) (ref : NodeRef) :
    List String :=
  usesByNode facts ref ++
    match (statementsOf ast.body).lookup ref with
    | none => []
    | some stmt =>
      if usesItsText stmt.kind then
        ((scan stmt.text).tokens.map strippedUpper).filter (looksLikeSymbol (declaredSymbols ast))
      else []

/-- `_declared_name`. -/
def declaredName (text : String) : Option String :=
  match (scan text).tokens with
  | first :: second :: _ => if first.upper = "DECLARE" then some second.upper else none
  | _ => none

/-- `_has_default`. -/
def hasDefault (text : String) : Bool :=
  Text.containsList " DEFAULT ".toList ((' ' :: (Text.normalized text).toList) ++ [' '])

/-- The declarations of variables with a default, by the name they declare. -/
def declaredDefaults (ast : ProcedureAst) : List (String × NodeRef) :=
  (variableDeclarations ast).filterMap fun s =>
    if hasDefault s.2.text then (declaredName s.2.text).map fun name => (name, s.1) else none

/-- `_declaration_default_ref`. -/
def declarationDefaultRef (ast : ProcedureAst) (symbol : String) : Option NodeRef :=
  (declaredDefaults ast).lookup symbol

/-! ## Reaching definitions -/

/-- A value of `initial_defs` and of the states: the value the caller passed, or a node. -/
inductive DefinitionRef where
  | parameter (name : String)
  | node (ref : NodeRef)
deriving DecidableEq

/-- `dict[key] = value`. -/
def setKey (entries : List (String × DefinitionRef)) (entry : String × DefinitionRef) :
    List (String × DefinitionRef) :=
  entry :: entries.filter (·.1 ≠ entry.1)

/-- What the two loops before the work list assign. -/
def initialEntries (ast : ProcedureAst) : List (String × DefinitionRef) :=
  ((ast.parameters.filter fun p => p.mode = .in).map fun p =>
      (Text.upperString p.name, .parameter (Text.upperString p.name))) ++
    (declaredDefaults ast).map fun d => (d.1, .node d.2)

/-- `initial_defs`. -/
def initialDefs (ast : ProcedureAst) : List (String × DefinitionRef) :=
  (initialEntries ast).foldl setKey []

/-- The problem `_reaching_definitions` solves. -/
def reachingDefinitions (ast : ProcedureAst) (facts : List StateAccessFact)
    (cfg : ControlFlowGraph) : FlowProblem CfgRef (String × DefinitionRef) where
  edges := graphEdges cfg
  entry := .entry
  init := (initialDefs ast).toFinset
  gen
    | .ast ref => ((defsByNode facts ref).map fun s => (s, DefinitionRef.node ref)).toFinset
    | _ => ∅
  kills
    | .ast ref, x => x.1 ∈ defsByNode facts ref
    | _, _ => false

instance isTransNodeRef : IsTrans NodeRef (· ≤ ·) := inferInstance

instance antisymmNodeRef : @Std.Antisymm NodeRef (· ≤ ·) := inferInstance

instance totalNodeRef : @Std.Total NodeRef (· ≤ ·) := inferInstance

/-- `_definitions_reaching`. -/
def definitionsReaching (cfg : ControlFlowGraph)
    (incoming : CfgRef → Option (Finset (String × DefinitionRef))) (use : NodeRef)
    (symbol : String) :
    List NodeRef :=
  if .ast use ∈ cfg.nodes then
    Finset.sort ((((incoming (.ast use)).getD ∅).filter fun x => x.1 = symbol).biUnion fun x =>
      match x.2 with
      | .node ref => {ref}
      | .parameter _ => ∅)
  else []

/-! ## The trace -/

mutual

/-- The IF regions of a subtree with the references of their arms. -/
def nodeIfRegions : Node → List (NodeRef × List NodeRef)
  | .simple _ _ => []
  | .compound _ _ _ body => seqIfRegions body
  | .ifRegion id arms => (id, arms.map fun a => a.header.armId) :: armIfRegions arms
  | .loop _ _ body => seqIfRegions body
  | .handler _ _ body => seqIfRegions body

def seqIfRegions : List Node → List (NodeRef × List NodeRef)
  | [] => []
  | n :: ns => nodeIfRegions n ++ seqIfRegions ns

def armIfRegions : List Arm → List (NodeRef × List NodeRef)
  | [] => []
  | .mk _ body :: arms => seqIfRegions body ++ armIfRegions arms

end

/-- `_control_predicate_nodes`: the arms up to that of the region. -/
def controlPredicateNodes (ast : ProcedureAst) : ControlRegion → List NodeRef
  | .ifArm region index _ =>
    match (seqIfRegions ast.body).lookup region with
    | some arms => if index < arms.length then arms.take (index + 1) else []
    | none => []
  | _ => []

/-- `seed_nodes`. -/
def seedNodes (effects : List EffectCandidate) (bundle : BehaviorEffectBundle) : List NodeRef :=
  bundle.effectMembers.filterMap fun m =>
    (effects.find? fun e => e.effectId = m.effectRef).map EffectCandidate.sourceNodeRef

/-- The use of a symbol at a node. -/
abbrev Use : Type := NodeRef × String

/-- What the loop collects. -/
structure Slice where
  localNodes : Finset NodeRef
  parameterSources : Finset String
  declarationDefaultRefs : Finset NodeRef
  /-- Symbol, definition and use. -/
  dependencyEdges : Finset (String × NodeRef × NodeRef)
deriving DecidableEq

section Trace

variable (ast : ProcedureAst) (facts : List StateAccessFact)
  (reaching : NodeRef → String → List NodeRef)

/-- What a turn of the loop appends to the queue. -/
def nextUses (use : Use) : List Use :=
  match reaching use.1 use.2 with
  | [] =>
    if use.2 ∈ parameterNames ast then []
    else
      match declarationDefaultRef ast use.2 with
      | some ref => (symbolsUsedByNode ast facts ref).map fun s => (ref, s)
      | none => []
  | definitions =>
    definitions.flatMap fun ref =>
      ((symbolsUsedByNode ast facts ref).filter (· ≠ use.2)).map fun s => (ref, s)

/-- What a turn of the loop adds to the sets. -/
def recordUse (slice : Slice) (use : Use) : Slice :=
  match reaching use.1 use.2 with
  | [] =>
    if use.2 ∈ parameterNames ast then
      { slice with parameterSources := insert use.2 slice.parameterSources }
    else
      match declarationDefaultRef ast use.2 with
      | some ref =>
        { slice with
          declarationDefaultRefs := insert ref slice.declarationDefaultRefs
          localNodes := insert ref slice.localNodes }
      | none => slice
  | definitions =>
    definitions.foldl
      (fun slice ref =>
        { slice with
          localNodes := insert ref slice.localNodes
          dependencyEdges := insert (use.2, ref, use.1) slice.dependencyEdges })
      slice

end Trace

/-- Every node the trace can come to. -/
def traceNodes (ast : ProcedureAst) (facts : List StateAccessFact) (roots : List NodeRef) :
    List NodeRef :=
  roots ++ facts.map StateAccessFact.sourceNodeRef ++ (statementsOf ast.body).map Prod.fst

/-- `_slice_bundle`. A use is looked at once, so the successors of all uses bound the turns. -/
def sliceBundle (ast : ProcedureAst) (facts : List StateAccessFact) (cfg : ControlFlowGraph)
    (effects : List EffectCandidate) (bundle : BehaviorEffectBundle) : Slice :=
  let solution := (reachingDefinitions ast facts cfg).solveFlow
  let reaching := definitionsReaching cfg solution.incoming
  let roots := seedNodes effects bundle ++ controlPredicateNodes ast bundle.controllingRegionRef
  let usesOf := fun ref => (symbolsUsedByNode ast facts ref).map fun s => (ref, s)
  let queue := roots.flatMap usesOf
  let domain := (traceNodes ast facts roots).flatMap usesOf
  (traverse (fun new old => old ++ new) (nextUses ast facts reaching) (recordUse ast reaching)
    (queue.length + (domain.dedup.map fun u => (nextUses ast facts reaching u).length).sum) queue []
    ⟨roots.toFinset, ∅, ∅, ∅⟩).2

end AtlasDb.Analysis.Slicing
