import AtlasDb.Analysis.Models
import AtlasDb.Lib.Search

/-!
# Transaction survival

`analysis/transaction.py: TransactionSurvivalAnalyzer`. From a DML statement the search follows the
edges of the graph to the first transaction boundary on each path; the outcomes found decide the
classification.
-/

namespace AtlasDb.Analysis

open Core Lib Parsing

/-- `_commit_on_return`. -/
def commitOnReturnOf (value : Option String) : CommitOnReturn :=
  match value with
  | none => .unknown
  | some text =>
    if Text.upperString text = "YES" then .yes
    else if Text.upperString text = "NO" then .no
    else .unknown

/-! ## The search for the first boundaries -/

/-- A state of the search: a node, and whether it is the statement the search started from, before
anything else was visited. -/
abbrev SearchState : Type := CfgRef × Bool

section

variable (kinds : NodeRef → Option StatementKind) (commitOnReturn : CommitOnReturn)
  (contract : Option CallerTransactionContract)

/-- The outcome recorded at a state, after which the search does not go on from there. -/
def boundaryOutcome : SearchState → Option TransactionPathOutcome
  | (.normalExit, _) =>
    if commitOnReturn = .yes then some .commitOnReturn
    else if contract.isSome then some .callerContractCommit
    else some .normalExitCallerControlled
  | (.exceptionalExit, _) =>
    if contract.isSome then some .callerContractRollback else some .exceptionalEscape
  | (.ast ref, false) =>
    match kinds ref with
    | some .commit => some .explicitCommit
    | some .rollback => some .explicitRollback
    | _ => none
  | _ => none

/-- The states pushed from a state. A handler edge of the source itself means that the statement
failed. -/
def searchSuccessors (edges : List CfgEdge) (s : SearchState) : List SearchState :=
  if (boundaryOutcome kinds commitOnReturn contract s).isSome then []
  else
    (edges.filter fun e => e.source = s.1 && !(s.2 && e.kind = .handler)).map fun e =>
      (e.target, false)

/-- The states `_first_boundaries` visits from a source. -/
def visitedStates (edges : List CfgEdge) (source : CfgRef) : List SearchState :=
  search (searchSuccessors kinds commitOnReturn contract edges)
    (2 * (edges.length + 1) * edges.length + 1) [(source, true)] []

/-- `_first_boundaries`: the outcomes and the boundaries of the states visited. -/
def firstBoundaries (edges : List CfgEdge) (source : CfgRef) :
    List TransactionPathOutcome × List CfgRef :=
  let visited := visitedStates kinds commitOnReturn contract edges source
  (visited.filterMap (boundaryOutcome kinds commitOnReturn contract),
   (visited.filter fun s => (boundaryOutcome kinds commitOnReturn contract s).isSome).map Prod.fst)

end

section

variable {kinds : NodeRef → Option StatementKind} {commitOnReturn : CommitOnReturn}
  {contract : Option CallerTransactionContract}

theorem exists_searchDomain (edges : List CfgEdge) (source : CfgRef) :
    ∃ domain : Finset SearchState,
      (∀ s ∈ domain, ∀ t ∈ searchSuccessors kinds commitOnReturn contract edges s, t ∈ domain) ∧
      (source, true) ∈ domain ∧
      pendingTurns (searchSuccessors kinds commitOnReturn contract edges) domain [(source, true)]
      [] ≤
        2 * (edges.length + 1) * edges.length + 1 := by
  let refs := (source :: edges.map CfgEdge.target).toFinset
  let domain : Finset SearchState := refs ×ˢ Finset.univ
  have hlength : ∀ s, (searchSuccessors kinds commitOnReturn contract edges s).length
      ≤ edges.length := by
    intro s
    unfold searchSuccessors
    split
    · exact Nat.zero_le _
    · simpa using List.length_filter_le _ edges
  have hcard : domain.card ≤ 2 * (edges.length + 1) := by
    have hrefs : refs.card ≤ (source :: edges.map CfgEdge.target).length := List.toFinset_card_le _
    have hproduct : domain.card = refs.card * 2 := by simp [domain, Finset.card_product]
    rw [List.length_cons, List.length_map] at hrefs
    omega
  refine ⟨domain, ?_, by simp [domain, refs], pendingTurns_start_le hcard hlength⟩
  intro s _ t ht
  unfold searchSuccessors at ht
  split at ht
  · cases ht
  · obtain ⟨e, he, rfl⟩ := List.mem_map.mp ht
    have hmem := (List.mem_filter.mp he).1
    simp only [domain, refs, Finset.mem_product, Finset.mem_univ, and_true, List.mem_toFinset]
    exact List.mem_cons_of_mem _ (List.mem_map_of_mem hmem)

theorem mem_visitedStates_iff {edges : List CfgEdge} {source : CfgRef} {s : SearchState} :
    s ∈ visitedStates kinds commitOnReturn contract edges source ↔
      Relation.ReflTransGen (fun a b => b ∈ searchSuccessors kinds commitOnReturn contract edges a)
        (source, true) s := by
  obtain ⟨domain, hclosed, hstart, hfuel⟩ := exists_searchDomain edges source
  exact mem_search_iff domain hclosed hstart hfuel

end

/-! ## Classification -/

/-- `_classify`. -/
def classify (outcomes : List TransactionPathOutcome) : TransactionSurvivalClassification :=
  let meaningful := outcomes.filter (· ≠ .noTerminalPath)
  let within := fun (allowed : List TransactionPathOutcome) => meaningful.all (· ∈ allowed)
  if meaningful ≠ [] ∧ within [.explicitCommit, .commitOnReturn] then .mustCommit
  else if meaningful ≠ [] ∧ within [.explicitRollback] then .mustRollback
  else if .callerContractCommit ∈ meaningful ∧
      within [.callerContractCommit, .callerContractRollback] then .callerContractCommit
  else if meaningful ≠ [] ∧ within [.normalExitCallerControlled] then .callerControlled
  else if within [.explicitCommit, .commitOnReturn, .explicitRollback] ∧
      .explicitRollback ∈ meaningful then .mayCommitOrRollback
  else if within [.explicitCommit, .commitOnReturn, .normalExitCallerControlled] ∧
      .normalExitCallerControlled ∈ meaningful then .mayCommitOrCallerControlled
  else if within [.normalExitCallerControlled, .exceptionalEscape] then
    .callerControlledOrExceptional
  else if .explicitCommit ∈ meaningful ∨ .explicitRollback ∈ meaningful ∨
      .normalExitCallerControlled ∈ meaningful then .mayCommitRollbackOrCallerControlled
  else .unresolved

variable {o : TransactionPathOutcome} {outcomes : List TransactionPathOutcome}

theorem classify_mustCommit
    (h : classify outcomes = .mustCommit) (ho : o ∈ outcomes) (hpath : o ≠ .noTerminalPath) :
    o = .explicitCommit ∨ o = .commitOnReturn := by
  unfold classify at h
  simp only at h
  split at h
  · next hwithin =>
      have hall := List.all_eq_true.mp hwithin.2 o (by simp [ho, hpath])
      simpa using hall
  all_goals exact absurd h (by repeat' split
                               all_goals decide)

theorem classify_mustRollback
    (h : classify outcomes = .mustRollback) (ho : o ∈ outcomes) (hpath : o ≠ .noTerminalPath) :
    o = .explicitRollback := by
  unfold classify at h
  simp only at h
  split at h
  · cases h
  · split at h
    · next hwithin =>
        have hall := List.all_eq_true.mp hwithin.2 o (by simp [ho, hpath])
        simpa using hall
    · exact absurd h (by repeat' split
                         all_goals decide)

/-- `_observability`. -/
def survivalObservability : TransactionSurvivalClassification → EffectObservability
  | .mustCommit => .committedEffect
  | .callerContractCommit => .conditionallyCommittedEffect
  | .mustRollback => .rolledBackEffect
  | _ => .transactionSurvivalUnresolved

/-! ## The analysis -/

/-- The outcomes in the order of their names, each once. -/
def sortedOutcomes (outcomes : List TransactionPathOutcome) : List TransactionPathOutcome :=
  [.callerContractCommit, .callerContractRollback, .commitOnReturn, .exceptionalEscape,
   .explicitCommit, .explicitRollback, .normalExitCallerControlled, .noTerminalPath].filter
    (· ∈ outcomes)

/-- The effects the analysis is about. -/
def EffectCandidate.isDataChange (e : EffectCandidate) : Bool :=
  e.effectKind = .dml ||
    (e.effectKind = .dynamicSql && e.observability = .transactionSurvivalUnresolved)

/-- The outcomes and boundaries of one effect. -/
def reachableOutcomes (ast : ProcedureAst) (cfg : ControlFlowGraph)
    (contract : Option CallerTransactionContract) (source : NodeRef) :
    List TransactionPathOutcome × List CfgRef :=
  if .ast source ∈ cfg.nodes then
    let found := firstBoundaries (kindAt ast) (commitOnReturnOf ast.commitOnReturn) contract
      cfg.edges (.ast source)
    if found.1 = [] then ([.noTerminalPath], found.2) else (sortedOutcomes found.1, found.2)
  else ([.noTerminalPath], [])

@[simp] theorem mem_sortedOutcomes
    : o ∈ sortedOutcomes outcomes ↔ o ∈ outcomes := by
  cases o <;> simp [sortedOutcomes]

theorem mem_reachableOutcomes {ast : ProcedureAst} {cfg : ControlFlowGraph}
    {contract : Option CallerTransactionContract} {source : NodeRef} {s : SearchState}
    (hnode : .ast source ∈ cfg.nodes)
    (hvisited : s ∈ visitedStates (kindAt ast) (commitOnReturnOf ast.commitOnReturn) contract
      cfg.edges (.ast source))
    (ho : boundaryOutcome (kindAt ast) (commitOnReturnOf ast.commitOnReturn) contract s = some o) :
    o ∈ (reachableOutcomes ast cfg contract source).1 := by
  have hmem : o ∈ (firstBoundaries (kindAt ast) (commitOnReturnOf ast.commitOnReturn) contract
      cfg.edges (.ast source)).1 := List.mem_filterMap.mpr ⟨s, hvisited, ho⟩
  simp only [reachableOutcomes, if_pos hnode]
  split
  · next hempty =>
      rw [hempty] at hmem
      cases hmem
  · simpa using hmem

/-- One turn of the loop of `analyze`. -/
def analyzeEffect (ast : ProcedureAst) (cfg : ControlFlowGraph)
    (contract : Option CallerTransactionContract) (e : EffectCandidate) :
    EffectTransactionAnalysis :=
  let found := reachableOutcomes ast cfg contract e.sourceNodeRef
  { analysisId := ⟨e.effectId, ast.nodeId, found.1⟩
    effectRef := e.effectId
    transactionRegionRef := ast.nodeId
    reachableOutcomes := found.1
    classification := classify found.1
    boundaryNodeRefs := found.2
    analysisCompleteness := if found.1 = [.noTerminalPath] then .incomplete else .complete
    callerTransactionContractRef := contract.map CallerTransactionContract.contractId
    callerTransactionContractDigest := contract.map CallerTransactionContract.contentDigest }

/-- An effect with the analysis made for its identifier, if any. -/
def updateEffect (analyses : List EffectTransactionAnalysis) (e : EffectCandidate) :
    EffectCandidate :=
  match analyses.reverse.find? (·.effectRef = e.effectId) with
  | some analysis =>
    { e with
      observability := survivalObservability analysis.classification
      transactionAnalysisRef := some analysis.analysisId }
  | none => e

/-- `TransactionSurvivalAnalyzer.analyze`: the updated effects, the region and the analyses. -/
def analyzeTransactions (ast : ProcedureAst) (cfg : ControlFlowGraph)
    (effects : List EffectCandidate) (contract : Option CallerTransactionContract) :
    List EffectCandidate × TransactionRegion × List EffectTransactionAnalysis :=
  let dmlEffects := effects.filter EffectCandidate.isDataChange
  let analyses := dmlEffects.map (analyzeEffect ast cfg contract)
  let refsOfKind := fun (kind : StatementKind) =>
    ((statementsOf ast.body).filter (·.2.kind = kind)).map Prod.fst
  (effects.map (updateEffect analyses),
   { transactionRegionId := ast.nodeId
     procedureAstRef := ast.nodeId
     commitOnReturn := commitOnReturnOf ast.commitOnReturn
     effectRefs := dmlEffects.map EffectCandidate.effectId
     explicitCommitRefs := refsOfKind .commit
     explicitRollbackRefs := refsOfKind .rollback },
   analyses)

end AtlasDb.Analysis
