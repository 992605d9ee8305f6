import AtlasDb.Core.CanonicalJson

/-!
# Governance models

`governance/models.py` and the artifact models the store reads (`bdd/models.py`,
`bdd/scenario_models.py`, `runtime/models.py`). A Pydantic model is a structure of the fields the
store looks at, with the rest of its dump carried along; the store never looks inside that rest
except through the stored JSON. Constructing a model runs its validators, so the constructors with a
timestamp return `Except`.
-/

namespace AtlasDb.Governance

open Core Core.Timestamp

/-! ## Enumerations -/

inductive GovernanceArtifactType where
  | scenarioSpecBatch
  | scenarioSpec
  | classificationObservation
  | effectClosure
  | resolutionVector
  | analysisBudgetReport
  | bddCompilationBatch
  | candidateBdd
  | traceabilityManifest
  | gherkinArtifact
  | runtimeVerificationBatch
  | runtimeExecutionRecord
  | runtimeVerificationResult
  | platformDecision
  | certificationBinding
deriving DecidableEq

namespace GovernanceArtifactType

def value : GovernanceArtifactType → String
  | scenarioSpecBatch => "SCENARIO_SPEC_BATCH"
  | scenarioSpec => "SCENARIO_SPEC"
  | classificationObservation => "CLASSIFICATION_OBSERVATION"
  | effectClosure => "EFFECT_CLOSURE"
  | resolutionVector => "RESOLUTION_VECTOR"
  | analysisBudgetReport => "ANALYSIS_BUDGET_REPORT"
  | bddCompilationBatch => "BDD_COMPILATION_BATCH"
  | candidateBdd => "CANDIDATE_BDD"
  | traceabilityManifest => "TRACEABILITY_MANIFEST"
  | gherkinArtifact => "GHERKIN_ARTIFACT"
  | runtimeVerificationBatch => "RUNTIME_VERIFICATION_BATCH"
  | runtimeExecutionRecord => "RUNTIME_EXECUTION_RECORD"
  | runtimeVerificationResult => "RUNTIME_VERIFICATION_RESULT"
  | platformDecision => "PLATFORM_DECISION"
  | certificationBinding => "CERTIFICATION_BINDING"

def all : List GovernanceArtifactType :=
  [scenarioSpecBatch, scenarioSpec, classificationObservation, effectClosure, resolutionVector,
   analysisBudgetReport, bddCompilationBatch, candidateBdd, traceabilityManifest, gherkinArtifact,
   runtimeVerificationBatch, runtimeExecutionRecord, runtimeVerificationResult, platformDecision,
   certificationBinding]

/-- `GovernanceArtifactType(text)`. -/
def ofValue (text : String) : Option GovernanceArtifactType := all.find? fun t => t.value = text

@[simp] theorem ofValue_value (t : GovernanceArtifactType) : ofValue t.value = some t := by
  cases t <;> decide

end GovernanceArtifactType

inductive GovernanceEventType where
  | artifactCached
  | referenceBaselineCached
  | baselineRetired
  | baselineCompared
  | reviewAmendmentCached
  | externalPlatformDecisionCached
  | externalCertificationCached
  | artifactAdmitted
  | baselineRegistered
  | artifactAmended
  | platformDecisionBound
  | certificationBound
deriving DecidableEq

namespace GovernanceEventType

def value : GovernanceEventType → String
  | artifactCached => "ARTIFACT_CACHED"
  | referenceBaselineCached => "REFERENCE_BASELINE_CACHED"
  | baselineRetired => "BASELINE_RETIRED"
  | baselineCompared => "BASELINE_COMPARED"
  | reviewAmendmentCached => "REVIEW_AMENDMENT_CACHED"
  | externalPlatformDecisionCached => "EXTERNAL_PLATFORM_DECISION_CACHED"
  | externalCertificationCached => "EXTERNAL_CERTIFICATION_CACHED"
  | artifactAdmitted => "ARTIFACT_ADMITTED"
  | baselineRegistered => "BASELINE_REGISTERED"
  | artifactAmended => "ARTIFACT_AMENDED"
  | platformDecisionBound => "PLATFORM_DECISION_BOUND"
  | certificationBound => "CERTIFICATION_BOUND"

def all : List GovernanceEventType :=
  [artifactCached, referenceBaselineCached, baselineRetired, baselineCompared,
   reviewAmendmentCached, externalPlatformDecisionCached, externalCertificationCached,
   artifactAdmitted, baselineRegistered, artifactAmended, platformDecisionBound,
   certificationBound]

def ofValue (text : String) : Option GovernanceEventType := all.find? fun t => t.value = text

@[simp] theorem ofValue_value (t : GovernanceEventType) : ofValue t.value = some t := by
  cases t <;> decide

end GovernanceEventType

inductive BaselineComparisonStatus where
  | match_
  | conflict
  | noBaseline
  | inconclusive
deriving DecidableEq

namespace BaselineComparisonStatus

def value : BaselineComparisonStatus → String
  | match_ => "MATCH"
  | conflict => "CONFLICT"
  | noBaseline => "NO_BASELINE"
  | inconclusive => "INCONCLUSIVE"

def all : List BaselineComparisonStatus := [match_, conflict, noBaseline, inconclusive]

def ofValue (text : String) : Option BaselineComparisonStatus := all.find? fun t => t.value = text

@[simp] theorem ofValue_value (t : BaselineComparisonStatus) : ofValue t.value = some t := by
  cases t <;> decide

end BaselineComparisonStatus

/-- The one member of `LocalEvidenceAuthorityScope`. -/
def localNonAuthoritativeEvidence : String := "LOCAL_NON_AUTHORITATIVE_EVIDENCE"

/-! ## Errors -/

/-- The exceptions a store operation can end with. -/
inductive StoreError where
  /-- `GovernanceStoreError`. -/
  | governance (message : String)
  /-- A Pydantic validator of `model` refused `field`. -/
  | validation (model field : String)
  /-- An enumeration has no member with this value. -/
  | noSuchValue (text : String)
  /-- `GherkinCanonicalizationError`. -/
  | gherkin (message : String)
  | canonicalJson (error : CanonicalJsonError)
  /-- `sqlite3.IntegrityError`. -/
  | integrity (message : String)
  /-- The stored payload is not a dictionary of the expected shape. -/
  | payloadShape (key : String)
deriving DecidableEq

def liftJson {α : Type} : Except CanonicalJsonError α → Except StoreError α
  | .ok a => .ok a
  | .error e => .error (.canonicalJson e)

/-- The canonical digest, as the store calls it. -/
def digestOf (nfc : Nfc) (value : PyValue) : Except StoreError String :=
  liftJson (canonicalDigest nfc value)

/-- A field validated by `canonical_timestamp`. -/
def timestampField (model field value : String) : Except StoreError String :=
  match canonicalTimestamp value with
  | some text => .ok text
  | none => .error (.validation model field)

def optionalTimestampField (model field : String) :
    Option String → Except StoreError (Option String)
  | none => .ok none
  | some value => do
      let text ← timestampField model field value
      .ok (some text)

def optionalStr : Option String → PyValue
  | none => .none
  | some s => .str s

def strTuple (texts : List String) : PyValue := .list (texts.map .str)

/-! ## Artifacts -/

/-- Fields of a model the store does not read. No artifact model has a field of a tagged scalar
type. -/
structure OtherFields where
  entries : List (String × PyValue)
  plain : plainFields entries = true

def OtherFields.none : OtherFields := ⟨[], rfl⟩

/-- A model handed to `_admit_model`: its dump without the digest, the digest when it has one, and
the text of a `GherkinArtifact`. -/
structure ArtifactModel where
  fields : List (String × PyValue)
  plain : plainFields fields = true
  contentDigest : Option String
  gherkinText : Option String := none

theorem plainFields_append (xs ys : List (String × PyValue)) :
    plainFields (xs ++ ys) = (plainFields xs && plainFields ys) := by
  induction xs with
  | nil => simp [plainFields]
  | cons x xs ih =>
    obtain ⟨k, v⟩ := x
    simp [plainFields, ih, Bool.and_assoc]

@[simp] theorem plain_optionalStr (s : Option String) : (optionalStr s).plain = true := by
  cases s <;> rfl

/-- `model_dump(mode="python", exclude={"content_digest"})`. -/
def ArtifactModel.dumpWithoutDigest (m : ArtifactModel) : PyValue := .model m.fields

def ArtifactModel.dump (m : ArtifactModel) : PyValue :=
  match m.contentDigest with
  | none => .model m.fields
  | some digest => .model (m.fields ++ [("content_digest", .str digest)])

theorem ArtifactModel.plain_dump (m : ArtifactModel) : m.dump.plain = true := by
  unfold dump
  cases m.contentDigest with
  | none => simpa [PyValue.plain] using m.plain
  | some digest => simp [PyValue.plain, plainFields_append, m.plain, plainFields]

/-- An artifact the store knows by its reference only. -/
structure Keyed where
  ref : String
  other : OtherFields
  contentDigest : Option String

def Keyed.model (refField : String) (k : Keyed) : ArtifactModel where
  fields := (refField, .str k.ref) :: k.other.entries
  plain := by simp [plainFields, PyValue.plain, k.other.plain]
  contentDigest := k.contentDigest

/-- `ClassificationObservation`: the one artifact without a digest of its own. -/
def classificationObservation (k : Keyed) : ArtifactModel :=
  k.model "classification_observation_id"

def effectClosureArtifact (k : Keyed) : ArtifactModel := k.model "effect_closure_id"

def resolutionVectorArtifact (k : Keyed) : ArtifactModel := k.model "resolution_vector_id"

def scenarioCompilerBudgetReport (k : Keyed) : ArtifactModel := k.model "budget_report_id"

def runtimeExecutionRecord (k : Keyed) : ArtifactModel := k.model "execution_id"

/-- An artifact that carries the behaviour identity. -/
structure IdentityBound where
  ref : String
  behaviorId : String
  sourceSymbolId : String
  symbolLineageId : String
  artifactRevisionId : String
  other : OtherFields
  contentDigest : String

def IdentityBound.model (refField : String) (a : IdentityBound) : ArtifactModel where
  fields :=
    [(refField, .str a.ref), ("behavior_id", .str a.behaviorId),
     ("source_symbol_id", .str a.sourceSymbolId), ("symbol_lineage_id", .str a.symbolLineageId),
     ("artifact_revision_id", .str a.artifactRevisionId)] ++ a.other.entries
  plain := by simp [plainFields, PyValue.plain, a.other.plain]
  contentDigest := some a.contentDigest

structure GherkinArtifact extends IdentityBound where
  text : String

def GherkinArtifact.model (a : GherkinArtifact) : ArtifactModel where
  fields := (a.toIdentityBound.model "artifact_id").fields ++ [("text", .str a.text)]
  plain := by
    rw [plainFields_append, (a.toIdentityBound.model "artifact_id").plain]
    rfl
  contentDigest := some a.contentDigest
  gherkinText := some a.text

def traceabilityManifest (a : IdentityBound) : ArtifactModel := a.model "manifest_id"

structure ScenarioSpec extends IdentityBound where
  platformGovernanceRef : Option String

def ScenarioSpec.model (s : ScenarioSpec) : ArtifactModel where
  fields := (s.toIdentityBound.model "scenario_spec_id").fields ++
    [("platform_governance_ref", optionalStr s.platformGovernanceRef)]
  plain := by
    rw [plainFields_append, (s.toIdentityBound.model "scenario_spec_id").plain]
    simp [plainFields]
  contentDigest := some s.contentDigest

/-- An artifact that takes its identity from the admitted `ScenarioSpec` it names. -/
structure SpecDependent where
  ref : String
  scenarioSpecRef : String
  platformGovernanceRef : Option String
  other : OtherFields
  contentDigest : String

def SpecDependent.model (refField : String) (a : SpecDependent) : ArtifactModel where
  fields :=
    [(refField, .str a.ref), ("scenario_spec_ref", .str a.scenarioSpecRef),
     ("platform_governance_ref", optionalStr a.platformGovernanceRef)] ++ a.other.entries
  plain := by simp [plainFields, PyValue.plain, a.other.plain]
  contentDigest := some a.contentDigest

def candidateBdd (a : SpecDependent) : ArtifactModel := a.model "candidate_bdd_id"

def runtimeVerificationResult (a : SpecDependent) : ArtifactModel :=
  a.model "verification_result_id"

/-! ## Batches -/

/-- The members of a batch in its own dump. -/
def dumps (models : List ArtifactModel) : PyValue := .list (models.map ArtifactModel.dump)

theorem plain_dumps (models : List ArtifactModel) : (dumps models).plain = true := by
  unfold dumps
  simp only [PyValue.plain]
  induction models with
  | nil => rfl
  | cons m ms ih => simp [plainList, m.plain_dump, ih]

structure ScenarioSpecBatchResult where
  procedureIdentityRef : String
  sourceSymbolId : String
  symbolLineageId : String
  classificationObservations : List Keyed
  effectClosures : List Keyed
  resolutionVectors : List Keyed
  budgetReports : List Keyed
  scenarioSpecs : List ScenarioSpec
  other : OtherFields
  contentDigest : String

def ScenarioSpecBatchResult.model (b : ScenarioSpecBatchResult) : ArtifactModel where
  fields :=
    [("procedure_identity_ref", .str b.procedureIdentityRef),
     ("source_symbol_id", .str b.sourceSymbolId), ("symbol_lineage_id", .str b.symbolLineageId),
     ("classification_observations",
       dumps (b.classificationObservations.map classificationObservation)),
     ("effect_closures", dumps (b.effectClosures.map effectClosureArtifact)),
     ("resolution_vectors", dumps (b.resolutionVectors.map resolutionVectorArtifact)),
     ("budget_reports", dumps (b.budgetReports.map scenarioCompilerBudgetReport)),
     ("scenario_specs", dumps (b.scenarioSpecs.map ScenarioSpec.model))] ++ b.other.entries
  plain := by simp [plainFields, PyValue.plain, b.other.plain, plain_dumps]
  contentDigest := some b.contentDigest

structure BddCompilationBatch where
  scenarioSpecBatchDigest : String
  gherkinArtifacts : List GherkinArtifact
  traceabilityManifests : List IdentityBound
  candidateBdds : List SpecDependent
  other : OtherFields
  contentDigest : String

def BddCompilationBatch.model (b : BddCompilationBatch) : ArtifactModel where
  fields :=
    [("scenario_spec_batch_digest", .str b.scenarioSpecBatchDigest),
     ("gherkin_artifacts", dumps (b.gherkinArtifacts.map GherkinArtifact.model)),
     ("traceability_manifests", dumps (b.traceabilityManifests.map traceabilityManifest)),
     ("candidate_bdds", dumps (b.candidateBdds.map candidateBdd))] ++ b.other.entries
  plain := by simp [plainFields, PyValue.plain, b.other.plain, plain_dumps]
  contentDigest := some b.contentDigest

structure RuntimeVerificationBatch where
  planBatchDigest : String
  executionRecords : List Keyed
  verificationResults : List SpecDependent
  other : OtherFields
  contentDigest : String

def RuntimeVerificationBatch.model (b : RuntimeVerificationBatch) : ArtifactModel where
  fields :=
    [("plan_batch_digest", .str b.planBatchDigest),
     ("execution_records", dumps (b.executionRecords.map runtimeExecutionRecord)),
     ("verification_results", dumps (b.verificationResults.map runtimeVerificationResult))] ++
      b.other.entries
  plain := by simp [plainFields, PyValue.plain, b.other.plain, plain_dumps]
  contentDigest := some b.contentDigest

/-! ## Records of the store -/

structure StoredArtifactRecord where
  artifactId : String
  artifactType : GovernanceArtifactType
  artifactRef : String
  contentDigest : String
  payloadDigest : String
  behaviorId : Option String
  sourceSymbolId : Option String
  symbolLineageId : Option String
  artifactRevisionId : Option String
  parentArtifactId : Option String
  invalidatesMachineAttestation : Bool
  platformGovernanceRef : Option String
  createdAt : String
deriving DecidableEq

/-- Construct the record; `validate_created_at` replaces the timestamp by its canonical text. -/
def StoredArtifactRecord.validated (r : StoredArtifactRecord) :
    Except StoreError StoredArtifactRecord := do
  let createdAt ← timestampField "StoredArtifactRecord" "created_at" r.createdAt
  .ok { r with createdAt }

def StoredArtifactRecord.dump (r : StoredArtifactRecord) : PyValue := .model
  [("artifact_id", .str r.artifactId), ("artifact_type", .enum (.str r.artifactType.value)),
   ("artifact_ref", .str r.artifactRef), ("content_digest", .str r.contentDigest),
   ("payload_digest", .str r.payloadDigest), ("behavior_id", optionalStr r.behaviorId),
   ("source_symbol_id", optionalStr r.sourceSymbolId),
   ("symbol_lineage_id", optionalStr r.symbolLineageId),
   ("artifact_revision_id", optionalStr r.artifactRevisionId),
   ("parent_artifact_id", optionalStr r.parentArtifactId),
   ("invalidates_machine_attestation", .bool r.invalidatesMachineAttestation),
   ("platform_governance_ref", optionalStr r.platformGovernanceRef),
   ("authority_scope", .enum (.str localNonAuthoritativeEvidence)),
   ("created_at", .str r.createdAt)]

structure BaselineRegistration where
  registrationId : String
  artifactId : String
  behaviorId : String
  authorityRef : String
  effectiveFrom : String
  effectiveTo : Option String
  contentDigest : String
deriving DecidableEq

def BaselineRegistration.validated (r : BaselineRegistration) :
    Except StoreError BaselineRegistration := do
  let effectiveFrom ← timestampField "BaselineRegistration" "effective_from" r.effectiveFrom
  let effectiveTo ← optionalTimestampField "BaselineRegistration" "effective_to" r.effectiveTo
  -- `validate_range`, on the canonical texts
  match effectiveTo with
  | some last =>
    if last ≤ effectiveFrom then .error (.validation "BaselineRegistration" "effective_to")
    else .ok { r with effectiveFrom, effectiveTo }
  | none => .ok { r with effectiveFrom, effectiveTo }

def BaselineRegistration.dump (r : BaselineRegistration) : PyValue := .model
  [("registration_id", .str r.registrationId), ("artifact_id", .str r.artifactId),
   ("behavior_id", .str r.behaviorId), ("authority_ref", .str r.authorityRef),
   ("effective_from", .str r.effectiveFrom), ("effective_to", optionalStr r.effectiveTo),
   ("content_digest", .str r.contentDigest)]

structure BaselineComparisonResult where
  comparisonId : String
  candidateArtifactId : String
  baselineArtifactId : Option String
  behaviorId : String
  sourceSymbolId : String
  symbolLineageId : String
  artifactRevisionId : String
  status : BaselineComparisonStatus
  candidateSignatureDigest : String
  baselineSignatureDigest : Option String
  classificationCandidate : Option String
  evidenceRefs : List String
  comparedAt : String
  contentDigest : String
deriving DecidableEq

/-- The one classification `BaselineComparisonResult` admits. -/
def baselineBehaviorViolationCandidate : String := "BASELINE_BEHAVIOR_VIOLATION_CANDIDATE"

def BaselineComparisonResult.validated (r : BaselineComparisonResult) :
    Except StoreError BaselineComparisonResult := do
  if r.classificationCandidate = none ∨
      r.classificationCandidate = some baselineBehaviorViolationCandidate then
    let comparedAt ← timestampField "BaselineComparisonResult" "compared_at" r.comparedAt
    .ok { r with comparedAt }
  else .error (.validation "BaselineComparisonResult" "classification_candidate")

def BaselineComparisonResult.dump (r : BaselineComparisonResult) : PyValue := .model
  [("comparison_id", .str r.comparisonId), ("candidate_artifact_id", .str r.candidateArtifactId),
   ("baseline_artifact_id", optionalStr r.baselineArtifactId), ("behavior_id", .str r.behaviorId),
   ("source_symbol_id", .str r.sourceSymbolId), ("symbol_lineage_id", .str r.symbolLineageId),
   ("artifact_revision_id", .str r.artifactRevisionId), ("status", .enum (.str r.status.value)),
   ("candidate_signature_digest", .str r.candidateSignatureDigest),
   ("baseline_signature_digest", optionalStr r.baselineSignatureDigest),
   ("classification_candidate", optionalStr r.classificationCandidate),
   ("evidence_refs", strTuple r.evidenceRefs), ("compared_at", .str r.comparedAt),
   ("content_digest", .str r.contentDigest)]

structure AmendmentRecord where
  amendmentId : String
  originalArtifactId : String
  amendedArtifactId : String
  behaviorId : String
  sourceSymbolId : String
  symbolLineageId : String
  artifactRevisionId : String
  editorRef : String
  reason : String
  amendedAt : String
  contentDigest : String
deriving DecidableEq

def AmendmentRecord.validated (r : AmendmentRecord) : Except StoreError AmendmentRecord := do
  let amendedAt ← timestampField "AmendmentRecord" "amended_at" r.amendedAt
  .ok { r with amendedAt }

def AmendmentRecord.dump (r : AmendmentRecord) : PyValue := .model
  [("amendment_id", .str r.amendmentId), ("original_artifact_id", .str r.originalArtifactId),
   ("amended_artifact_id", .str r.amendedArtifactId), ("behavior_id", .str r.behaviorId),
   ("source_symbol_id", .str r.sourceSymbolId), ("symbol_lineage_id", .str r.symbolLineageId),
   ("artifact_revision_id", .str r.artifactRevisionId), ("editor_ref", .str r.editorRef),
   ("reason", .str r.reason), ("invalidates_machine_attestation", .bool true),
   ("amended_at", .str r.amendedAt), ("content_digest", .str r.contentDigest)]

structure PlatformDecisionEnvelope where
  bindingId : String
  artifactId : String
  artifactDigest : String
  platformDecisionRef : String
  decisionType : String
  authorityRef : String
  effectiveAt : String
  evidenceRefs : List String
  contentDigest : String
deriving DecidableEq

def PlatformDecisionEnvelope.validated (e : PlatformDecisionEnvelope) :
    Except StoreError PlatformDecisionEnvelope := do
  let effectiveAt ← timestampField "PlatformDecisionEnvelope" "effective_at" e.effectiveAt
  .ok { e with effectiveAt }

def PlatformDecisionEnvelope.fields (e : PlatformDecisionEnvelope) : List (String × PyValue) :=
  [("binding_id", .str e.bindingId), ("artifact_id", .str e.artifactId),
   ("artifact_digest", .str e.artifactDigest),
   ("platform_decision_ref", .str e.platformDecisionRef), ("decision_type", .str e.decisionType),
   ("authority_ref", .str e.authorityRef), ("effective_at", .str e.effectiveAt),
   ("evidence_refs", strTuple e.evidenceRefs)]

def PlatformDecisionEnvelope.dump (e : PlatformDecisionEnvelope) : PyValue :=
  .model (e.fields ++ [("content_digest", .str e.contentDigest)])

structure CertificationEnvelope where
  certificationBindingId : String
  artifactId : String
  artifactDigest : String
  certificationRef : String
  certificationType : String
  authorityRef : String
  validFrom : String
  validTo : Option String
  evidenceRefs : List String
  contentDigest : String
deriving DecidableEq

/-- Unlike a baseline, a certification is not checked for `valid_to` being later. -/
def CertificationEnvelope.validated (e : CertificationEnvelope) :
    Except StoreError CertificationEnvelope := do
  let validFrom ← timestampField "CertificationEnvelope" "valid_from" e.validFrom
  let validTo ← optionalTimestampField "CertificationEnvelope" "valid_to" e.validTo
  .ok { e with validFrom, validTo }

def CertificationEnvelope.fields (e : CertificationEnvelope) : List (String × PyValue) :=
  [("certification_binding_id", .str e.certificationBindingId), ("artifact_id", .str e.artifactId),
   ("artifact_digest", .str e.artifactDigest), ("certification_ref", .str e.certificationRef),
   ("certification_type", .str e.certificationType), ("authority_ref", .str e.authorityRef),
   ("valid_from", .str e.validFrom), ("valid_to", optionalStr e.validTo),
   ("evidence_refs", strTuple e.evidenceRefs)]

def CertificationEnvelope.dump (e : CertificationEnvelope) : PyValue :=
  .model (e.fields ++ [("content_digest", .str e.contentDigest)])

structure GovernanceAuditEvent where
  eventId : String
  sequence : Nat
  eventType : GovernanceEventType
  artifactId : String
  actorRef : String
  eventAt : String
  payloadDigest : String
  previousEventDigest : Option String
  contentDigest : String
deriving DecidableEq

def GovernanceAuditEvent.validated (e : GovernanceAuditEvent) :
    Except StoreError GovernanceAuditEvent := do
  let eventAt ← timestampField "GovernanceAuditEvent" "event_at" e.eventAt
  .ok { e with eventAt }

/-- The payload an event's digest is taken of: every field but the digest. `_append_event` and
`history` write the same dictionary. -/
def GovernanceAuditEvent.payload (e : GovernanceAuditEvent) : PyValue := .record
  [("event_id", .str e.eventId), ("sequence", .int e.sequence),
   ("event_type", .enum (.str e.eventType.value)), ("artifact_id", .str e.artifactId),
   ("actor_ref", .str e.actorRef), ("event_at", .str e.eventAt),
   ("payload_digest", .str e.payloadDigest),
   ("previous_event_digest", optionalStr e.previousEventDigest)]

def GovernanceAuditEvent.dump (e : GovernanceAuditEvent) : PyValue := .model
  [("event_id", .str e.eventId), ("sequence", .int e.sequence),
   ("event_type", .enum (.str e.eventType.value)), ("artifact_id", .str e.artifactId),
   ("actor_ref", .str e.actorRef), ("event_at", .str e.eventAt),
   ("payload_digest", .str e.payloadDigest),
   ("previous_event_digest", optionalStr e.previousEventDigest),
   ("content_digest", .str e.contentDigest)]

structure GovernanceHistory where
  artifact : StoredArtifactRecord
  baselineRegistrations : List BaselineRegistration
  comparisons : List BaselineComparisonResult
  amendments : List AmendmentRecord
  platformDecisions : List PlatformDecisionEnvelope
  certifications : List CertificationEnvelope
  auditEvents : List GovernanceAuditEvent
  auditChainValid : Bool
  contentDigest : String

end AtlasDb.Governance
