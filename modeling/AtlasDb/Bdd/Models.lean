import AtlasDb.Analysis.Modalities
import AtlasDb.Core.Instant
import AtlasDb.Lib.Assoc
import Mathlib.Data.List.Dedup

/-!
# Scenario specifications and authority snapshots

`bdd/scenario_models.py`, `bdd/models.py` and `bdd/authority_models.py`: the records the BDD
compiler reads and writes, each with the dump its content digest is taken of.
-/

namespace AtlasDb.Bdd

open Core Core.Timestamp Analysis

/-! ## Exceptions -/

/-- The exceptions these modules raise. A canonical JSON error is a `ValueError`. -/
inductive PyError where
  | keyError (key : String)
  | indexError
  | valueError (text : String)
  | canonicalJson (error : CanonicalJsonError)

def digestOf (nfc : Nfc) (value : PyValue) : Except PyError String :=
  match canonicalDigest nfc value with
  | .ok digest => .ok digest
  | .error error => .error (.canonicalJson error)

/-- `_digest_valid`: the digest a model carries is the digest of its other fields. -/
def digestValid (nfc : Nfc) (dump : PyValue) (contentDigest : String) : Except PyError Bool := do
  let digest ← digestOf nfc dump
  return digest == contentDigest

/-- `_stable_id`. -/
def stableId (kind : String) (parts : List String) : String :=
  kind ++ "-" ++ String.ofList ((Sha256.hexdigest (utf8 ("|".intercalate parts).toList)).take 20)

/-- `sorted(values, key=…)` with a text as the key. -/
def sortBy {α : Type} (key : α → String) (values : List α) : List α :=
  values.mergeSort fun a b => decide (key a ≤ key b)

@[simp] theorem mem_sortBy {α : Type} {key : α → String} {values : List α} {a : α} :
    a ∈ sortBy key values ↔ a ∈ values :=
  List.mem_mergeSort

theorem sortBy_perm {α : Type} (key : α → String) (values : List α) :
    List.Perm (sortBy key values) values :=
  List.mergeSort_perm _ _

/-- `{key(value): value for value in values}`: a later value takes the place of an earlier one. -/
def dictBy {α : Type} (key : α → String) (values : List α) : List (String × α) :=
  values.foldl (fun entries value => Lib.setEntry entries (key value) value) []

/-! ## Texts in dumps -/

def texts (values : List String) : PyValue := .list (values.map PyValue.str)

def optionalText (value : Option String) : PyValue := (value.map PyValue.str).getD .none

theorem projects_texts {nfc : Nfc} (values : List String) : Projects nfc (texts values) :=
  projects_list fun v hv => by
    obtain ⟨s, -, rfl⟩ := List.mem_map.1 hv
    exact projects_str s

theorem projects_optionalText {nfc : Nfc} (value : Option String) :
    Projects nfc (optionalText value) := by
  cases value with
  | none => exact projects_none
  | some s => exact projects_str s

/-! ## Scenario specifications -/

def modalityValue : EffectModality → String
  | .must => "MUST"
  | .mustIfCallerContractHolds => "MUST_IF_CALLER_CONTRACT_HOLDS"
  | .may => "MAY"
  | .mustNot => "MUST_NOT"
  | .unknown => "UNKNOWN"

inductive ClassificationAuthorityStatus where
  | approved
  | unapproved
deriving DecidableEq

def ClassificationAuthorityStatus.value : ClassificationAuthorityStatus → String
  | .approved => "APPROVED"
  | .unapproved => "UNAPPROVED"

/-- `ranking_score` is a float or `None`. -/
structure ClassificationObservation where
  classificationObservationId : String
  candidate : String
  method : String
  methodVersion : String
  rankingScore : PyValue
  scoreSemantics : Option String
  classificationEvidenceRefs : List String
  authorityRef : Option String
  authorityStatus : ClassificationAuthorityStatus

def ClassificationObservation.dump (o : ClassificationObservation) : PyValue :=
  .record
    [("classification_observation_id", .str o.classificationObservationId),
      ("candidate", .str o.candidate), ("method", .str o.method),
      ("method_version", .str o.methodVersion), ("ranking_score", o.rankingScore),
      ("score_semantics", optionalText o.scoreSemantics),
      ("classification_evidence_refs", texts o.classificationEvidenceRefs),
      ("authority_ref", optionalText o.authorityRef),
      ("authority_status", .enum (.str o.authorityStatus.value))]

inductive ActionKind where
  | procedureInvocation
  | cursorIteration
  | handlerActivation
  | postLoopAggregation
  | transactionCompletion
deriving DecidableEq

def ActionKind.value : ActionKind → String
  | .procedureInvocation => "PROCEDURE_INVOCATION"
  | .cursorIteration => "CURSOR_ITERATION"
  | .handlerActivation => "HANDLER_ACTIVATION"
  | .postLoopAggregation => "POST_LOOP_AGGREGATION"
  | .transactionCompletion => "TRANSACTION_COMPLETION"

structure ScenarioAction where
  actionKind : ActionKind
  procedureIdentityRef : String
  invocationContractRef : String
  actionScopeRef : Option String
  evidenceRefs : List String

def ScenarioAction.dump (a : ScenarioAction) : PyValue :=
  .record
    [("action_kind", .str a.actionKind.value),
      ("procedure_identity_ref", .str a.procedureIdentityRef),
      ("invocation_contract_ref", .str a.invocationContractRef),
      ("action_scope_ref", optionalText a.actionScopeRef), ("evidence_refs", texts a.evidenceRefs)]

structure ScenarioPrecondition where
  preconditionId : String
  technicalFactRef : String
  constraintAssessmentRef : Option String
  classificationObservationRef : Option String
  evidenceRefs : List String

def ScenarioPrecondition.dump (p : ScenarioPrecondition) : PyValue :=
  .record
    [("precondition_id", .str p.preconditionId), ("technical_fact_ref", .str p.technicalFactRef),
      ("modality", .str "MUST"),
      ("constraint_assessment_ref", optionalText p.constraintAssessmentRef),
      ("classification_observation_ref", optionalText p.classificationObservationRef),
      ("evidence_refs", texts p.evidenceRefs)]

structure ScenarioEffect where
  effectRef : String
  modality : EffectModality
  evidenceRefs : List String
  callerTransactionContractRef : Option String

def ScenarioEffect.dump (e : ScenarioEffect) : PyValue :=
  .record
    [("effect_ref", .str e.effectRef), ("modality", .enum (.str (modalityValue e.modality))),
      ("evidence_refs", texts e.evidenceRefs),
      ("caller_transaction_contract_ref", optionalText e.callerTransactionContractRef)]

inductive EffectClosureCompleteness where
  | directEffectOnly
  | partialTransitiveClosure
  | closedWithinScope
  | unknown
deriving DecidableEq

def EffectClosureCompleteness.value : EffectClosureCompleteness → String
  | .directEffectOnly => "DIRECT_EFFECT_ONLY"
  | .partialTransitiveClosure => "PARTIAL_TRANSITIVE_CLOSURE"
  | .closedWithinScope => "CLOSED_WITHIN_SCOPE"
  | .unknown => "UNKNOWN"

structure EffectClosureArtifact where
  effectClosureId : String
  completeness : EffectClosureCompleteness
  includedEffectRefs : List String
  unresolvedEffectRefs : List String
  evidenceRefs : List String
  contentDigest : String

/-- The dump without the digest. -/
def EffectClosureArtifact.content (c : EffectClosureArtifact) : List (String × PyValue) :=
  [("effect_closure_id", .str c.effectClosureId), ("scope", .str "ANALYZED_DEPENDENCIES"),
    ("completeness", .enum (.str c.completeness.value)),
    ("included_effect_refs", texts c.includedEffectRefs),
    ("unresolved_effect_refs", texts c.unresolvedEffectRefs),
    ("evidence_refs", texts c.evidenceRefs)]

inductive ResolutionStatus where
  | resolved
  | resolvedSourceOnly
  | notApplicable
  | notAssessed
  | unresolved
deriving DecidableEq

def ResolutionStatus.value : ResolutionStatus → String
  | .resolved => "RESOLVED"
  | .resolvedSourceOnly => "RESOLVED_SOURCE_ONLY"
  | .notApplicable => "NOT_APPLICABLE"
  | .notAssessed => "NOT_ASSESSED"
  | .unresolved => "UNRESOLVED"

structure ResolutionVectorArtifact where
  resolutionVectorId : String
  routineResolution : ResolutionStatus
  viewResolution : ResolutionStatus
  udfResolution : ResolutionStatus
  triggerResolution : ResolutionStatus
  constraintResolution : ResolutionStatus
  dynamicRelationResolution : ResolutionStatus
  evidenceRefs : List String
  contentDigest : String

def ResolutionVectorArtifact.content (r : ResolutionVectorArtifact) : List (String × PyValue) :=
  let status (s : ResolutionStatus) : PyValue := .enum (.str s.value)
  [("resolution_vector_id", .str r.resolutionVectorId),
    ("routine_resolution", status r.routineResolution),
    ("view_resolution", status r.viewResolution), ("udf_resolution", status r.udfResolution),
    ("trigger_resolution", status r.triggerResolution),
    ("constraint_resolution", status r.constraintResolution),
    ("dynamic_relation_resolution", status r.dynamicRelationResolution),
    ("evidence_refs", texts r.evidenceRefs)]

structure ScenarioCompilerBudgetReport where
  budgetReportId : String
  configuredLimits : List (String × Int)
  consumed : List (String × Int)
  exceededLimits : List String
  analysisResult : String
  contentDigest : String

def counts (values : List (String × Int)) : PyValue :=
  .record (values.map fun entry => (entry.1, .int entry.2))

def ScenarioCompilerBudgetReport.content (b : ScenarioCompilerBudgetReport) :
    List (String × PyValue) :=
  [("budget_report_id", .str b.budgetReportId), ("configured_limits", counts b.configuredLimits),
    ("consumed", counts b.consumed), ("exceeded_limits", texts b.exceededLimits),
    ("reporting_integrity", .str "COMPLETE"), ("analysis_result", .str b.analysisResult)]

structure ScenarioSpec where
  scenarioSpecId : String
  behaviorId : String
  sourceSymbolId : String
  symbolLineageId : String
  procedureIdentityRef : String
  artifactRevisionId : String
  behaviorEffectBundleRef : String
  behaviorSliceRef : String
  predicateGraphRef : Option String
  action : ScenarioAction
  preconditions : List ScenarioPrecondition
  expectedEffects : List ScenarioEffect
  alternativeOrConditionalEffects : List ScenarioEffect
  effectClosureRef : String
  resolutionVectorRef : String
  summaryRefs : List String
  orderedDecisionReductionRefs : List String
  callerTransactionContractRefs : List String
  analysisBudgetReportRef : String
  findingRefs : List String
  evidenceRefs : List String
  requiredClassificationSlots : List String
  requiredVocabularySlots : List String
  platformGovernanceRef : Option String
  contentDigest : String

def ScenarioSpec.content (s : ScenarioSpec) : List (String × PyValue) :=
  [("scenario_spec_id", .str s.scenarioSpecId), ("schema_version", .str "1.1"),
    ("behavior_id", .str s.behaviorId), ("source_symbol_id", .str s.sourceSymbolId),
    ("symbol_lineage_id", .str s.symbolLineageId),
    ("procedure_identity_ref", .str s.procedureIdentityRef),
    ("artifact_revision_id", .str s.artifactRevisionId),
    ("behavior_effect_bundle_ref", .str s.behaviorEffectBundleRef),
    ("behavior_slice_ref", .str s.behaviorSliceRef),
    ("predicate_graph_ref", optionalText s.predicateGraphRef), ("action", s.action.dump),
    ("preconditions", .list (s.preconditions.map ScenarioPrecondition.dump)),
    ("expected_effects", .list (s.expectedEffects.map ScenarioEffect.dump)),
    ("alternative_or_conditional_effects",
      .list (s.alternativeOrConditionalEffects.map ScenarioEffect.dump)),
    ("effect_closure_ref", .str s.effectClosureRef),
    ("resolution_vector_ref", .str s.resolutionVectorRef), ("summary_refs", texts s.summaryRefs),
    ("ordered_decision_reduction_refs", texts s.orderedDecisionReductionRefs),
    ("caller_transaction_contract_refs", texts s.callerTransactionContractRefs),
    ("analysis_budget_report_ref", .str s.analysisBudgetReportRef),
    ("finding_refs", texts s.findingRefs), ("evidence_refs", texts s.evidenceRefs),
    ("required_classification_slots", texts s.requiredClassificationSlots),
    ("required_vocabulary_slots", texts s.requiredVocabularySlots),
    ("platform_governance_ref", optionalText s.platformGovernanceRef),
    ("created_by_compiler_version", .str "scenario-compiler-1.5")]

/-- The dump of a model: its content and its digest. -/
def sealed (content : List (String × PyValue)) (contentDigest : String) : PyValue :=
  .record (content ++ [("content_digest", .str contentDigest)])

/-- `compilation_results` are dumps already: the compiler only digests them. -/
structure ScenarioSpecBatchResult where
  parserResultDigest : String
  semanticResultDigest : String
  procedureIdentityRef : String
  sourceSymbolId : String
  symbolLineageId : String
  classificationObservations : List ClassificationObservation
  effectClosures : List EffectClosureArtifact
  resolutionVectors : List ResolutionVectorArtifact
  budgetReports : List ScenarioCompilerBudgetReport
  scenarioSpecs : List ScenarioSpec
  compilationResults : List PyValue
  contentDigest : String

def ScenarioSpecBatchResult.content (b : ScenarioSpecBatchResult) : List (String × PyValue) :=
  [("schema_version", .str "scenario-spec-batch-0.1"),
    ("parser_result_digest", .str b.parserResultDigest),
    ("semantic_result_digest", .str b.semanticResultDigest),
    ("procedure_identity_ref", .str b.procedureIdentityRef),
    ("source_symbol_id", .str b.sourceSymbolId), ("symbol_lineage_id", .str b.symbolLineageId),
    ("classification_observations",
      .list (b.classificationObservations.map ClassificationObservation.dump)),
    ("effect_closures", .list (b.effectClosures.map fun c => sealed c.content c.contentDigest)),
    ("resolution_vectors",
      .list (b.resolutionVectors.map fun r => sealed r.content r.contentDigest)),
    ("budget_reports", .list (b.budgetReports.map fun r => sealed r.content r.contentDigest)),
    ("scenario_specs", .list (b.scenarioSpecs.map fun s => sealed s.content s.contentDigest)),
    ("compilation_results", .list b.compilationResults)]

/-! ## Authority snapshots -/

inductive AuthorityScope where
  | testFixtureOnly
  | platform
deriving DecidableEq

def AuthorityScope.value : AuthorityScope → String
  | .testFixtureOnly => "TEST_FIXTURE_ONLY"
  | .platform => "PLATFORM"

inductive MappingKind where
  | exactApprovedMapping
  | structuralApprovedMapping
  | symbolBoundApprovedMapping
  | manuallyApprovedMapping
  | mappingCandidateOnly
deriving DecidableEq

def MappingKind.value : MappingKind → String
  | .exactApprovedMapping => "EXACT_APPROVED_MAPPING"
  | .structuralApprovedMapping => "STRUCTURAL_APPROVED_MAPPING"
  | .symbolBoundApprovedMapping => "SYMBOL_BOUND_APPROVED_MAPPING"
  | .manuallyApprovedMapping => "MANUALLY_APPROVED_MAPPING"
  | .mappingCandidateOnly => "MAPPING_CANDIDATE_ONLY"

/-- `timestamp_active`. The texts it is given are canonical timestamps, so none fails to be read. -/
def timestampActive (at' validFrom : String) (validTo : Option String) : Bool :=
  let instant := (instantOf at').getD 0
  decide ((instantOf validFrom).getD 0 ≤ instant) &&
    (validTo.map fun stop => decide (instant < (instantOf stop).getD 0)).getD true

/-- `text.replace("_", "").isalnum()` of a name that does not begin with a digit; `isalnum` is that
of ASCII. -/
def isIdentifier (text : List Char) : Bool :=
  let letters := text.filter (· ≠ '_')
  !letters.isEmpty && letters.all Char.isAlphanum && !(text.head?.any Char.isDigit)

structure PlaceholderContract where
  placeholder : String
  required : Bool
  identifier : isIdentifier placeholder.toList = true

def PlaceholderContract.dump (c : PlaceholderContract) : PyValue :=
  .record [("placeholder", .str c.placeholder), ("required", .bool c.required)]

/-- A phrase as `validate_phrase` leaves it: stripped, not empty, on one line. -/
def ApprovedPhrase (phrase : List Char) : Prop :=
  Text.strip phrase = phrase ∧ phrase ≠ [] ∧ '\n' ∉ phrase ∧ '\r' ∉ phrase

/-- A mapping that has passed its validators. -/
structure VocabularyMapping where
  mappingId : String
  mappingVersion : String
  mappingKind : MappingKind
  normalizedTechnicalPatternRef : String
  structuralContextDigest : Option String
  symbolBindingRefs : List String
  manualRequirementRef : Option String
  phraseTemplate : String
  placeholderContract : List PlaceholderContract
  supportedModalities : List EffectModality
  approvalRef : String
  authorityScope : AuthorityScope
  validFrom : String
  validTo : Option String
  evidenceRefs : List String
  contentDigest : String
  phrase : ApprovedPhrase phraseTemplate.toList
  validFrom_canonical : canonicalTimestamp validFrom = some validFrom
  validTo_canonical : ∀ stop ∈ validTo, canonicalTimestamp stop = some stop ∧ validFrom < stop
  structural : mappingKind = .structuralApprovedMapping → structuralContextDigest.any (· ≠ "")
  symbols : mappingKind = .symbolBoundApprovedMapping → symbolBindingRefs ≠ []
  manual : mappingKind = .manuallyApprovedMapping → manualRequirementRef.any (· ≠ "")
  names : (placeholderContract.map PlaceholderContract.placeholder).Nodup

def VocabularyMapping.content (m : VocabularyMapping) : List (String × PyValue) :=
  [("mapping_id", .str m.mappingId), ("mapping_version", .str m.mappingVersion),
    ("mapping_kind", .enum (.str m.mappingKind.value)),
    ("normalized_technical_pattern_ref", .str m.normalizedTechnicalPatternRef),
    ("structural_context_digest", optionalText m.structuralContextDigest),
    ("symbol_binding_refs", texts m.symbolBindingRefs),
    ("manual_requirement_ref", optionalText m.manualRequirementRef),
    ("phrase_template", .str m.phraseTemplate),
    ("placeholder_contract", .list (m.placeholderContract.map PlaceholderContract.dump)),
    ("supported_modalities",
      .list (m.supportedModalities.map fun modality => .enum (.str (modalityValue modality)))),
    ("approval_ref", .str m.approvalRef), ("authority_scope", .enum (.str m.authorityScope.value)),
    ("valid_from", .str m.validFrom), ("valid_to", optionalText m.validTo),
    ("evidence_refs", texts m.evidenceRefs)]

structure VocabularySnapshot where
  snapshotId : String
  registryVersion : String
  effectiveTimestamp : String
  authorityScope : AuthorityScope
  mappings : List VocabularyMapping
  contentDigest : String
  canonical : canonicalTimestamp effectiveTimestamp = some effectiveTimestamp

def VocabularySnapshot.content (s : VocabularySnapshot) : List (String × PyValue) :=
  [("schema_version", .str "vocabulary-snapshot-1.1"), ("snapshot_id", .str s.snapshotId),
    ("registry_version", .str s.registryVersion),
    ("effective_timestamp", .str s.effectiveTimestamp),
    ("authority_scope", .enum (.str s.authorityScope.value)),
    ("mappings", .list (s.mappings.map fun m => sealed m.content m.contentDigest))]

structure ClassificationApproval where
  approvalId : String
  classificationObservationRef : String
  classificationObservationDigest : String
  approvedCandidate : String
  approvalRef : String
  authorityScope : AuthorityScope
  validFrom : String
  validTo : Option String
  evidenceRefs : List String
  contentDigest : String
  validFrom_canonical : canonicalTimestamp validFrom = some validFrom
  validTo_canonical : ∀ stop ∈ validTo, canonicalTimestamp stop = some stop ∧ validFrom < stop

def ClassificationApproval.content (a : ClassificationApproval) : List (String × PyValue) :=
  [("approval_id", .str a.approvalId),
    ("classification_observation_ref", .str a.classificationObservationRef),
    ("classification_observation_digest", .str a.classificationObservationDigest),
    ("approved_candidate", .str a.approvedCandidate), ("approval_ref", .str a.approvalRef),
    ("authority_scope", .enum (.str a.authorityScope.value)), ("valid_from", .str a.validFrom),
    ("valid_to", optionalText a.validTo), ("evidence_refs", texts a.evidenceRefs)]

structure ClassificationSnapshot where
  snapshotId : String
  registryVersion : String
  effectiveTimestamp : String
  authorityScope : AuthorityScope
  approvals : List ClassificationApproval
  contentDigest : String
  canonical : canonicalTimestamp effectiveTimestamp = some effectiveTimestamp

def ClassificationSnapshot.content (s : ClassificationSnapshot) : List (String × PyValue) :=
  [("schema_version", .str "classification-snapshot-1.1"), ("snapshot_id", .str s.snapshotId),
    ("registry_version", .str s.registryVersion),
    ("effective_timestamp", .str s.effectiveTimestamp),
    ("authority_scope", .enum (.str s.authorityScope.value)),
    ("approvals", .list (s.approvals.map fun a => sealed a.content a.contentDigest))]

/-! ## Requirements -/

inductive VocabularySlotKind where
  | featureTitle
  | scenarioName
  | action
  | precondition
  | effect
deriving DecidableEq

def VocabularySlotKind.value : VocabularySlotKind → String
  | .featureTitle => "FEATURE_TITLE"
  | .scenarioName => "SCENARIO_NAME"
  | .action => "ACTION"
  | .precondition => "PRECONDITION"
  | .effect => "EFFECT"

structure VocabularyRequirement where
  requirementId : String
  scenarioSpecRef : String
  slotId : String
  slotKind : VocabularySlotKind
  sourceRef : String
  normalizedTechnicalPatternRef : String
  structuralContextDigest : String
  symbolBindingRefs : List String
  requiredModality : Option EffectModality
  evidenceRefs : List String

/-- `placeholder_values`, which the exporter leaves at its default. -/
def VocabularyRequirement.placeholderValues (_ : VocabularyRequirement) : List (String × String) :=
  []

/-! ## Blockers -/

inductive BddBlockerCode where
  | scenarioSpecBatchDigestInvalid
  | scenarioSpecDigestInvalid
  | scenarioNestedArtifactDigestInvalid
  | vocabularySnapshotDigestInvalid
  | classificationSnapshotDigestInvalid
  | authorityScopeMismatch
  | missingClassificationApproval
  | ambiguousClassificationApproval
  | classificationCandidateMismatch
  | classificationObservationDigestMismatch
  | classificationApprovalNotEffective
  | noApprovedBusinessTerm
  | ambiguousApprovedBusinessTerm
  | mappingNotEffective
  | nonPromotableMappingKind
  | placeholderBindingInvalid
  | modalityNotApprovedByMapping
  | nonDefinitiveEffect
  | effectClosureInsufficient
  | dependencyResolutionIncomplete
  | traceabilityManifestFailed
  | gherkinStructureInvalid
  | compilationInternalError
deriving DecidableEq

def BddBlockerCode.value : BddBlockerCode → String
  | .scenarioSpecBatchDigestInvalid => "SCENARIO_SPEC_BATCH_DIGEST_INVALID"
  | .scenarioSpecDigestInvalid => "SCENARIO_SPEC_DIGEST_INVALID"
  | .scenarioNestedArtifactDigestInvalid => "SCENARIO_NESTED_ARTIFACT_DIGEST_INVALID"
  | .vocabularySnapshotDigestInvalid => "VOCABULARY_SNAPSHOT_DIGEST_INVALID"
  | .classificationSnapshotDigestInvalid => "CLASSIFICATION_SNAPSHOT_DIGEST_INVALID"
  | .authorityScopeMismatch => "AUTHORITY_SCOPE_MISMATCH"
  | .missingClassificationApproval => "MISSING_CLASSIFICATION_APPROVAL"
  | .ambiguousClassificationApproval => "AMBIGUOUS_CLASSIFICATION_APPROVAL"
  | .classificationCandidateMismatch => "CLASSIFICATION_CANDIDATE_MISMATCH"
  | .classificationObservationDigestMismatch => "CLASSIFICATION_OBSERVATION_DIGEST_MISMATCH"
  | .classificationApprovalNotEffective => "CLASSIFICATION_APPROVAL_NOT_EFFECTIVE"
  | .noApprovedBusinessTerm => "NO_APPROVED_BUSINESS_TERM"
  | .ambiguousApprovedBusinessTerm => "AMBIGUOUS_APPROVED_BUSINESS_TERM"
  | .mappingNotEffective => "MAPPING_NOT_EFFECTIVE"
  | .nonPromotableMappingKind => "NON_PROMOTABLE_MAPPING_KIND"
  | .placeholderBindingInvalid => "PLACEHOLDER_BINDING_INVALID"
  | .modalityNotApprovedByMapping => "MODALITY_NOT_APPROVED_BY_MAPPING"
  | .nonDefinitiveEffect => "NON_DEFINITIVE_EFFECT"
  | .effectClosureInsufficient => "EFFECT_CLOSURE_INSUFFICIENT"
  | .dependencyResolutionIncomplete => "DEPENDENCY_RESOLUTION_INCOMPLETE"
  | .traceabilityManifestFailed => "TRACEABILITY_MANIFEST_FAILED"
  | .gherkinStructureInvalid => "GHERKIN_STRUCTURE_INVALID"
  | .compilationInternalError => "COMPILATION_INTERNAL_ERROR"

end AtlasDb.Bdd
