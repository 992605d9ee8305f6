import AtlasDb.Governance.Store

/-!
# Reading the history of an artifact

`GovernanceStore.history`: the rows about an artifact, each validated again by its model, and the
verdict on the whole audit chain. The chain is checked from the stored columns alone: every event
must name the digest of the event before it, and carry the canonical digest of its own columns.
-/

namespace AtlasDb.Governance

open Core Core.Timestamp Lib

/-- The event a row stands for, before its model validates it. -/
def AuditRow.event (row : AuditRow) (eventType : GovernanceEventType) : GovernanceAuditEvent :=
  ⟨row.eventId, row.sequence, eventType, row.artifactId, row.actorRef, row.eventAt,
    row.payloadDigest, row.previousEventDigest, row.contentDigest⟩

def AuditRow.toEvent (row : AuditRow) : Except StoreError GovernanceAuditEvent :=
  match GovernanceEventType.ofValue row.eventType with
  | none => .error (.noSuchValue row.eventType)
  | some eventType => (row.event eventType).validated

/-- One turn of the chain check of `history`. -/
def checkEvent (nfc : Nfc) (previous : Option String) (row : AuditRow) : Except StoreError Bool :=
  match GovernanceEventType.ofValue row.eventType with
  | none => .error (.noSuchValue row.eventType)
  | some eventType =>
    if row.previousEventDigest ≠ previous then .ok false
    else do
      let digest ← digestOf nfc (row.event eventType).payload
      .ok (decide (row.contentDigest = digest))

/-- The chain check over the rows of `SELECT * FROM governance_audit_events ORDER BY sequence`. -/
def chainValid (nfc : Nfc) (rows : List AuditRow) : Except StoreError Bool :=
  HashChain.verify AuditRow.contentDigest (checkEvent nfc) none rows

/-- What the session of `history` reads. -/
structure HistoryRows where
  baselines : List BaselineRegistration
  comparisons : List ComparisonRow
  amendments : List AmendmentRow
  decisions : List PlatformDecisionEnvelope
  certifications : List CertificationEnvelope
  events : List AuditRow
  allEvents : List AuditRow

def historyRows (artifactId : String) (s : Store) : HistoryRows where
  baselines := (s.baselines.filter fun r => r.artifactId = artifactId).insertionSort
    fun a b => a.effectiveFrom ≤ b.effectiveFrom
  comparisons := (s.comparisons.filter fun r =>
      r.candidateArtifactId = artifactId ∨ r.baselineArtifactId = some artifactId).insertionSort
    fun a b => a.comparedAt ≤ b.comparedAt
  amendments := (s.amendments.filter fun r =>
      r.originalArtifactId = artifactId ∨ r.amendedArtifactId = artifactId).insertionSort
    fun a b => a.amendedAt ≤ b.amendedAt
  decisions := (s.platformDecisions.filter fun r => r.artifactId = artifactId).insertionSort
    fun a b => a.effectiveAt ≤ b.effectiveAt
  certifications := (s.certifications.filter fun r => r.artifactId = artifactId).insertionSort
    fun a b => a.validFrom ≤ b.validFrom
  events := s.eventsInOrder.filter fun r => r.artifactId = artifactId
  allEvents := s.eventsInOrder

/-- A comparison row with the identity of its candidate, which is looked up again. -/
def ComparisonRow.toResult (row : ComparisonRow) (identity : StoredArtifactRecord) :
    Except StoreError BaselineComparisonResult :=
  match BaselineComparisonStatus.ofValue row.status with
  | none => .error (.noSuchValue row.status)
  | some status => BaselineComparisonResult.validated
      { comparisonId := row.comparisonId, candidateArtifactId := row.candidateArtifactId,
        baselineArtifactId := row.baselineArtifactId, behaviorId := row.behaviorId,
        sourceSymbolId := identity.sourceSymbolId.getD "",
        symbolLineageId := identity.symbolLineageId.getD "",
        artifactRevisionId := identity.artifactRevisionId.getD "", status,
        candidateSignatureDigest := row.candidateSignatureDigest,
        baselineSignatureDigest := row.baselineSignatureDigest,
        classificationCandidate := row.classificationCandidate, evidenceRefs := row.evidenceRefs,
        comparedAt := row.comparedAt, contentDigest := row.contentDigest }

def AmendmentRow.toRecord (row : AmendmentRow) (identity : StoredArtifactRecord) :
    Except StoreError AmendmentRecord := AmendmentRecord.validated
  { amendmentId := row.amendmentId, originalArtifactId := row.originalArtifactId,
    amendedArtifactId := row.amendedArtifactId, behaviorId := identity.behaviorId.getD "",
    sourceSymbolId := identity.sourceSymbolId.getD "",
    symbolLineageId := identity.symbolLineageId.getD "",
    artifactRevisionId := identity.artifactRevisionId.getD "", editorRef := row.editorRef,
    reason := row.reason, amendedAt := row.amendedAt, contentDigest := row.contentDigest }

/-- Build one value per row, looking up the artifact each row names. -/
def withIdentity {ρ α : Type} (nfc : Nfc) (artifactId : ρ → String)
    (build : ρ → StoredArtifactRecord → Except StoreError α) : List ρ → StoreClient (List α)
  | [] => pure []
  | row :: rows => do
      let (identity, _) ← getArtifact nfc (artifactId row)
      let value ← Client.ofExcept (build row identity)
      let values ← withIdentity nfc artifactId build rows
      pure (value :: values)

/-- Validate one row after the other. -/
def validateAll {ρ α : Type} (validate : ρ → Except StoreError α) :
    List ρ → Except StoreError (List α)
  | [] => .ok []
  | row :: rows => do
      let value ← validate row
      let values ← validateAll validate rows
      .ok (value :: values)

/-- The payload `history` takes its digest of. -/
def historyPayload (h : GovernanceHistory) : PyValue := .record
  [("artifact", h.artifact.dump),
   ("baseline_registrations", .list (h.baselineRegistrations.map BaselineRegistration.dump)),
   ("comparisons", .list (h.comparisons.map BaselineComparisonResult.dump)),
   ("amendments", .list (h.amendments.map AmendmentRecord.dump)),
   ("platform_decisions", .list (h.platformDecisions.map PlatformDecisionEnvelope.dump)),
   ("certifications", .list (h.certifications.map CertificationEnvelope.dump)),
   ("audit_events", .list (h.auditEvents.map GovernanceAuditEvent.dump)),
   ("audit_chain_valid", .bool h.auditChainValid)]

def history (nfc : Nfc) (artifactId : String) : StoreClient GovernanceHistory := do
  let (artifact, _) ← getArtifact nfc artifactId
  let rows ← Client.transaction (select (historyRows artifactId))
  let baselineRegistrations ← Client.ofExcept
    (validateAll BaselineRegistration.validated rows.baselines)
  let comparisons ← withIdentity nfc ComparisonRow.candidateArtifactId ComparisonRow.toResult
    rows.comparisons
  let amendments ← withIdentity nfc AmendmentRow.amendedArtifactId AmendmentRow.toRecord
    rows.amendments
  let platformDecisions ← Client.ofExcept
    (validateAll PlatformDecisionEnvelope.validated rows.decisions)
  let certifications ← Client.ofExcept
    (validateAll CertificationEnvelope.validated rows.certifications)
  let auditEvents ← Client.ofExcept (validateAll AuditRow.toEvent rows.events)
  let auditChainValid ← Client.ofExcept (chainValid nfc rows.allEvents)
  let value : GovernanceHistory :=
    { artifact, baselineRegistrations, comparisons, amendments, platformDecisions, certifications,
      auditEvents, auditChainValid, contentDigest := "" }
  let contentDigest ← Client.ofExcept (digestOf nfc (historyPayload value))
  pure { value with contentDigest }

/-! ## Runs -/

/-- The operations that change the store. An envelope is given as the fields its model is
constructed from. -/
inductive Operation where
  | admitScenarioBatch (batch : ScenarioSpecBatchResult) (createdAt actorRef : String)
  | admitBddBatch (batch : BddCompilationBatch) (createdAt actorRef : String)
  | admitRuntimeBatch (batch : RuntimeVerificationBatch) (createdAt actorRef : String)
  | registerBaseline (artifactId authorityRef effectiveFrom actorRef : String)
  | compareToBaseline (candidateArtifactId comparedAt actorRef : String)
  | amendScenarioSpec (originalArtifactId : String) (amendedSpec : ScenarioSpec)
      (editorRef reason amendedAt : String)
  | bindPlatformDecision (envelope : PlatformDecisionEnvelope)
  | bindCertification (envelope : CertificationEnvelope)

/-- Perform an operation, keeping the store it leaves. -/
def Operation.perform (nfc : Nfc) : Operation → Store → Store
  | admitScenarioBatch batch createdAt actorRef, s =>
    ((Governance.admitScenarioBatch nfc batch createdAt actorRef).run s).2
  | admitBddBatch batch createdAt actorRef, s =>
    ((Governance.admitBddBatch nfc batch createdAt actorRef).run s).2
  | admitRuntimeBatch batch createdAt actorRef, s =>
    ((Governance.admitRuntimeBatch nfc batch createdAt actorRef).run s).2
  | registerBaseline artifactId authorityRef effectiveFrom actorRef, s =>
    ((Governance.registerBaseline nfc artifactId authorityRef effectiveFrom actorRef).run s).2
  | compareToBaseline candidateArtifactId comparedAt actorRef, s =>
    ((Governance.compareToBaseline nfc candidateArtifactId comparedAt actorRef).run s).2
  | amendScenarioSpec originalArtifactId amendedSpec editorRef reason amendedAt, s =>
    ((Governance.amendScenarioSpec nfc originalArtifactId amendedSpec editorRef reason
      amendedAt).run s).2
  | bindPlatformDecision envelope, s =>
    (((do let envelope ← Client.ofExcept envelope.validated
          Governance.bindPlatformDecision nfc envelope) : StoreClient Unit).run s).2
  | bindCertification envelope, s =>
    (((do let envelope ← Client.ofExcept envelope.validated
          Governance.bindCertification nfc envelope) : StoreClient Unit).run s).2

/-- The store after a sequence of operations on freshly created tables. -/
def Store.after (nfc : Nfc) (ops : List Operation) : Store :=
  runAll (Operation.perform nfc) ops Store.empty

end AtlasDb.Governance
