import AtlasDb.Analysis.Cfg

/-!
# Records of the analyses

`analysis/models.py`: effects, transaction analyses, bundles and obligations. An identifier is a
digest of some of the record's values in the source; here it is these values (`EffectId`,
`AnalysisId`), so that two records share an identifier exactly when they agree on them.
-/

namespace AtlasDb.Analysis

open Parsing

/-! ## Effects -/

inductive EffectKind where
  | outParameterAssignment
  | dml
  | call
  | dynamicSql
  | commit
  | rollback
  | signal
  | resignal
  | sequenceValueAcquisition
  | resultSetReturn
  | stateAssignment
deriving DecidableEq

inductive EffectObservability where
  | intermediateEffect
  | escapingEffect
  | committedEffect
  | rolledBackEffect
  | overwrittenOutputAssignment
  | handledCondition
  | unhandledEscapingCondition
  | unresolvedEffectBoundary
  | transactionSurvivalUnresolved
  | conditionallyCommittedEffect
deriving DecidableEq

def EffectKind.value : EffectKind → String
  | .outParameterAssignment => "OUT_PARAMETER_ASSIGNMENT"
  | .dml => "DML"
  | .call => "CALL"
  | .dynamicSql => "DYNAMIC_SQL"
  | .commit => "COMMIT"
  | .rollback => "ROLLBACK"
  | .signal => "SIGNAL"
  | .resignal => "RESIGNAL"
  | .sequenceValueAcquisition => "SEQUENCE_VALUE_ACQUISITION"
  | .resultSetReturn => "RESULT_SET_RETURN"
  | .stateAssignment => "STATE_ASSIGNMENT"

def EffectObservability.value : EffectObservability → String
  | .intermediateEffect => "INTERMEDIATE_EFFECT"
  | .escapingEffect => "ESCAPING_EFFECT"
  | .committedEffect => "COMMITTED_EFFECT"
  | .rolledBackEffect => "ROLLED_BACK_EFFECT"
  | .overwrittenOutputAssignment => "OVERWRITTEN_OUTPUT_ASSIGNMENT"
  | .handledCondition => "HANDLED_CONDITION"
  | .unhandledEscapingCondition => "UNHANDLED_ESCAPING_CONDITION"
  | .unresolvedEffectBoundary => "UNRESOLVED_EFFECT_BOUNDARY"
  | .transactionSurvivalUnresolved => "TRANSACTION_SURVIVAL_UNRESOLVED"
  | .conditionallyCommittedEffect => "CONDITIONALLY_COMMITTED_EFFECT"

/-- What `effect_id` is the digest of: the values the effect was created with. -/
structure EffectId where
  kind : EffectKind
  nodeRef : NodeRef
  target : Option String
  valueExpression : Option String
  observability : EffectObservability
deriving DecidableEq

/-! ## Transactions -/

inductive TransactionPathOutcome where
  | explicitCommit
  | explicitRollback
  | normalExitCallerControlled
  | callerContractCommit
  | callerContractRollback
  | commitOnReturn
  | exceptionalEscape
  | noTerminalPath
deriving DecidableEq

inductive TransactionSurvivalClassification where
  | mustCommit
  | mustRollback
  | callerControlled
  | callerContractCommit
  | mayCommitOrRollback
  | mayCommitOrCallerControlled
  | callerControlledOrExceptional
  | mayCommitRollbackOrCallerControlled
  | unresolved
deriving DecidableEq

inductive CommitOnReturn where
  | yes
  | no
  | unknown
deriving DecidableEq

structure CallerTransactionContract where
  contractId : String
  evidenceRefs : List String
  contentDigest : String
deriving DecidableEq

/-- What `analysis_id` is the digest of. -/
structure AnalysisId where
  effectRef : EffectId
  regionRef : NodeRef
  outcomes : List TransactionPathOutcome
deriving DecidableEq

/-- An effect. Its kind, source, target and value are those its identifier was made of; only the
observability is changed later. -/
structure EffectCandidate where
  effectId : EffectId
  observability : EffectObservability
  reachesExitRefs : List CfgRef := []
  transactionAnalysisRef : Option AnalysisId := none
deriving DecidableEq

namespace EffectCandidate

def effectKind (e : EffectCandidate) : EffectKind := e.effectId.kind

def sourceNodeRef (e : EffectCandidate) : NodeRef := e.effectId.nodeRef

def target (e : EffectCandidate) : Option String := e.effectId.target

def valueExpression (e : EffectCandidate) : Option String := e.effectId.valueExpression

end EffectCandidate

inductive Completeness where
  | complete
  | incomplete
deriving DecidableEq

structure EffectTransactionAnalysis where
  analysisId : AnalysisId
  effectRef : EffectId
  transactionRegionRef : NodeRef
  reachableOutcomes : List TransactionPathOutcome
  classification : TransactionSurvivalClassification
  boundaryNodeRefs : List CfgRef
  analysisCompleteness : Completeness
  callerTransactionContractRef : Option String
  callerTransactionContractDigest : Option String
deriving DecidableEq

structure TransactionRegion where
  transactionRegionId : NodeRef
  procedureAstRef : NodeRef
  commitOnReturn : CommitOnReturn
  effectRefs : List EffectId
  explicitCommitRefs : List NodeRef
  explicitRollbackRefs : List NodeRef
deriving DecidableEq

/-! ## Dynamic SQL -/

inductive DynamicSqlResolutionStatus where
  | staticallyReconstructed
  | enumerableVariants
  | partiallyReconstructed
  | runtimeCaptureRequired
  | unresolvedDynamicSql
  | dynamicVariantBudgetExceeded
deriving DecidableEq

inductive DynamicSqlStatementKind where
  | select
  | insert
  | update
  | delete
  | merge
  | call
  | values
  | unknown
deriving DecidableEq

/-- A text a dynamic statement may execute. It stands for its own identifier, which is a digest of
it. -/
structure DynamicSqlVariant where
  templateText : String
  concreteSql : Option String
  placeholderNames : List String
  statementKind : DynamicSqlStatementKind
  callTarget : Option String
  sourceDefinitionRefs : List NodeRef
deriving DecidableEq

structure DynamicSqlSite where
  executeNodeRef : NodeRef
  resolutionStatus : DynamicSqlResolutionStatus
  variantRefs : List DynamicSqlVariant
deriving DecidableEq

/-- A statement has one site, so its reference stands for the digest. -/
def DynamicSqlSite.siteId (site : DynamicSqlSite) : String := "dynamic-site-" ++ site.executeNodeRef

/-- The kind of the simple statement with this reference. -/
def kindAt (ast : ProcedureAst) (ref : NodeRef) : Option StatementKind :=
  ((statementsOf ast.body).lookup ref).map Statement.kind

end AtlasDb.Analysis
