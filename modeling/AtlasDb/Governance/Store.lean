import AtlasDb.Governance.Models
import AtlasDb.Lib.Session
import AtlasDb.Lib.HashChain

/-!
# The governance store

`governance/adapters/sqlite.py: GovernanceStore` over the schema of `governance_migrations/`. A
`Store` is the committed content of the tables, each in insertion order. A transaction is a `Txn`,
which leaves nothing behind when it raises; an operation is a `Client` and may go through several
transactions. Python opens a transaction at the first INSERT of a session (`with self.session() as
connection:`), so a query before it is a transaction of its own, and from the INSERT on the session
holds the write lock.

The `payload_json` column holds the printed canonical document; it is kept here as the document
`json.loads` reads from it.
-/

namespace AtlasDb.Governance

open Core Core.Timestamp Lib

/-! ## Tables -/

structure ArtifactRow where
  artifactId : String
  artifactType : String
  artifactRef : String
  contentDigest : String
  payloadDigest : String
  payloadJson : Json
  behaviorId : Option String
  sourceSymbolId : Option String
  symbolLineageId : Option String
  artifactRevisionId : Option String
  parentArtifactId : Option String
  invalidatesMachineAttestation : Bool
  platformGovernanceRef : Option String
  authorityScope : String
  createdAt : String

structure ComparisonRow where
  comparisonId : String
  candidateArtifactId : String
  baselineArtifactId : Option String
  behaviorId : String
  status : String
  candidateSignatureDigest : String
  baselineSignatureDigest : Option String
  classificationCandidate : Option String
  evidenceRefs : List String
  comparedAt : String
  contentDigest : String

structure AmendmentRow where
  amendmentId : String
  originalArtifactId : String
  amendedArtifactId : String
  editorRef : String
  reason : String
  amendedAt : String
  contentDigest : String

structure AuditRow where
  eventId : String
  sequence : Nat
  eventType : String
  artifactId : String
  actorRef : String
  eventAt : String
  payloadDigest : String
  previousEventDigest : Option String
  contentDigest : String

/-- The tables. The columns of the three binding tables are the fields of their models. -/
structure Store where
  artifacts : List ArtifactRow
  baselines : List BaselineRegistration
  comparisons : List ComparisonRow
  amendments : List AmendmentRow
  platformDecisions : List PlatformDecisionEnvelope
  certifications : List CertificationEnvelope
  auditEvents : List AuditRow

/-- The tables `initialize` creates. -/
def Store.empty : Store := ⟨[], [], [], [], [], [], []⟩

/-! ## Statements -/

abbrev StoreTxn (α : Type) : Type := Txn Store StoreError α
abbrev StoreClient (α : Type) : Type 1 := Client Store StoreError α

/-- A query. -/
def select {α : Type} (query : Store → α) : StoreTxn α := fun s => .ok (query s, s)

def check {α : Type} (x : Except StoreError α) : StoreTxn α := fun s =>
  match x with
  | .ok a => .ok (a, s)
  | .error e => .error e

/-- A row reference constrained by `REFERENCES governance_artifacts(artifact_id)`. -/
def Store.hasArtifact (s : Store) (artifactId : String) : Bool :=
  s.artifacts.any fun row => row.artifactId = artifactId

/-- Insert a row unless a constraint of its table fails. -/
def insertRow (constraints : Store → List (Bool × String)) (add : Store → Store) : StoreTxn Unit :=
  fun s =>
    match (constraints s).find? fun c => !c.1 with
    | some c => .error (.integrity c.2)
    | none => .ok ((), add s)

def insertArtifact (row : ArtifactRow) : StoreTxn Unit :=
  insertRow
    (fun s =>
      [(!s.hasArtifact row.artifactId,
        "UNIQUE constraint failed: governance_artifacts.artifact_id"),
       (!s.artifacts.any fun r => r.artifactType = row.artifactType ∧
          r.artifactRef = row.artifactRef ∧ r.contentDigest = row.contentDigest,
        "UNIQUE constraint failed: governance_artifacts.artifact_type, artifact_ref, content_digest"),
       (row.parentArtifactId.all fun parent => s.hasArtifact parent || parent = row.artifactId,
        "FOREIGN KEY constraint failed")])
    (fun s => { s with artifacts := s.artifacts ++ [row] })

def insertBaseline (row : BaselineRegistration) : StoreTxn Unit :=
  insertRow
    (fun s =>
      [(!s.baselines.any fun r => r.registrationId = row.registrationId,
        "UNIQUE constraint failed: governance_baselines.registration_id"),
       (s.hasArtifact row.artifactId, "FOREIGN KEY constraint failed")])
    (fun s => { s with baselines := s.baselines ++ [row] })

/-- `INSERT OR IGNORE`: a second row with the same key is dropped silently, a dangling reference is
an error all the same. -/
def insertOrIgnoreComparison (row : ComparisonRow) : StoreTxn Unit :=
  insertRow
    (fun s =>
      [(s.comparisons.any (fun r => r.comparisonId = row.comparisonId) ||
          s.hasArtifact row.candidateArtifactId && row.baselineArtifactId.all s.hasArtifact,
        "FOREIGN KEY constraint failed")])
    (fun s =>
      if s.comparisons.any fun r => r.comparisonId = row.comparisonId then s
      else { s with comparisons := s.comparisons ++ [row] })

def insertAmendment (row : AmendmentRow) : StoreTxn Unit :=
  insertRow
    (fun s =>
      [(!s.amendments.any fun r => r.amendmentId = row.amendmentId,
        "UNIQUE constraint failed: governance_amendments.amendment_id"),
       (s.hasArtifact row.originalArtifactId && s.hasArtifact row.amendedArtifactId,
        "FOREIGN KEY constraint failed")])
    (fun s => { s with amendments := s.amendments ++ [row] })

def insertPlatformDecision (row : PlatformDecisionEnvelope) : StoreTxn Unit :=
  insertRow
    (fun s =>
      [(!s.platformDecisions.any fun r => r.bindingId = row.bindingId,
        "UNIQUE constraint failed: governance_platform_decisions.binding_id"),
       (s.hasArtifact row.artifactId, "FOREIGN KEY constraint failed")])
    (fun s => { s with platformDecisions := s.platformDecisions ++ [row] })

def insertCertification (row : CertificationEnvelope) : StoreTxn Unit :=
  insertRow
    (fun s =>
      [(!s.certifications.any fun r => r.certificationBindingId = row.certificationBindingId,
        "UNIQUE constraint failed: governance_certifications.certification_binding_id"),
       (s.hasArtifact row.artifactId, "FOREIGN KEY constraint failed")])
    (fun s => { s with certifications := s.certifications ++ [row] })

def insertAuditEvent (row : AuditRow) : StoreTxn Unit :=
  insertRow
    (fun s =>
      [(!s.auditEvents.any fun r => r.eventId = row.eventId,
        "UNIQUE constraint failed: governance_audit_events.event_id"),
       (!s.auditEvents.any fun r => r.sequence = row.sequence,
        "UNIQUE constraint failed: governance_audit_events.sequence")])
    (fun s => { s with auditEvents := s.auditEvents ++ [row] })

/-! ## Identifiers -/

def sha256Hex24 (parts : List String) : String :=
  let material := List.intercalate [Char.ofNat 0] (parts.map String.toList)
  String.ofList ((Sha256.hexdigest (utf8 material)).take 24)

/-- `_artifact_id`. -/
def artifactIdOf (artifactType : GovernanceArtifactType) (artifactRef contentDigest : String) :
    String :=
  "gov-artifact-" ++ sha256Hex24 [artifactType.value, artifactRef, contentDigest]

/-- `str(value)` of an optional text inside an f-string. -/
def formatted : Option String → String
  | some text => text
  | none => "None"

/-- `f"audit-{sequence:012d}"`. -/
def eventIdOf (sequence : Nat) : String :=
  let digits := Nat.toDigits 10 sequence
  "audit-" ++ String.ofList (List.replicate (12 - digits.length) '0' ++ digits)

/-! ## Digests of artifacts -/

/-- `value.replace("\r\n", "\n").replace("\r", "\n")`. -/
def unixLines : List Char → List Char
  | '\r' :: '\n' :: cs => '\n' :: unixLines cs
  | '\r' :: cs => '\n' :: unixLines cs
  | c :: cs => c :: unixLines cs
  | [] => []

/-- `value.split("\n")`. -/
def splitLines : List Char → List (List Char)
  | [] => [[]]
  | '\n' :: cs => [] :: splitLines cs
  | c :: cs =>
    match splitLines cs with
    | line :: lines => (c :: line) :: lines
    | [] => [[c]]

def dropTrailing {α : Type} (p : α → Bool) (xs : List α) : List α :=
  (xs.reverse.dropWhile p).reverse

/-- `canonical_gherkin_text`. -/
def canonicalGherkinText (nfc : Nfc) (value : String) : Except StoreError (List Char) :=
  let lines := (splitLines (unixLines (nfc.normalize value).toList)).map
    (dropTrailing fun c => c = ' ' || c = '\t')
  let lines := dropTrailing List.isEmpty lines
  if lines.isEmpty then .error (.gherkin "Gherkin artifact cannot be empty.")
  else if lines.any fun line => line.contains (Char.ofNat 0) then
    .error (.gherkin "Gherkin artifact contains a NUL character.")
  else .ok (List.intercalate ['\n'] lines ++ ['\n'])

def gherkinDigest (nfc : Nfc) (value : String) : Except StoreError String := do
  let text ← canonicalGherkinText nfc value
  .ok (sha256Digest (utf8 text))

/-- `expected != content_digest` of `validate_content_digest`. -/
def requireDigest (modelName expected actual : String) : Except StoreError String :=
  if expected = actual then .ok actual
  else .error (.governance
    ("Invalid content digest for " ++ modelName ++ ": expected " ++ expected ++ ", got " ++ actual))

/-- `validate_content_digest`. -/
def validateContentDigest (nfc : Nfc) (modelName : String) (model : ArtifactModel) :
    Except StoreError String :=
  match model.contentDigest with
  | none => digestOf nfc model.dump
  | some contentDigest => do
      let expected ← match model.gherkinText with
        | some text => gherkinDigest nfc text
        | none => digestOf nfc model.dumpWithoutDigest
      requireDigest modelName expected contentDigest

/-! ## Audit events -/

/-- `ORDER BY sequence`. -/
def Store.eventsInOrder (s : Store) : List AuditRow :=
  s.auditEvents.insertionSort fun a b => a.sequence ≤ b.sequence

/-- The columns of an event. -/
def GovernanceAuditEvent.toRow (e : GovernanceAuditEvent) : AuditRow :=
  ⟨e.eventId, e.sequence, e.eventType.value, e.artifactId, e.actorRef, e.eventAt, e.payloadDigest,
    e.previousEventDigest, e.contentDigest⟩

/-- The event `_append_event` makes of its arguments and the last row. -/
def nextEvent (previous : Option AuditRow) (eventType : GovernanceEventType)
    (artifactId actorRef eventAt payloadDigest contentDigest : String) : GovernanceAuditEvent :=
  let sequence := match previous with
    | none => 1
    | some row => row.sequence + 1
  { eventId := eventIdOf sequence, sequence, eventType, artifactId, actorRef, eventAt,
    payloadDigest, previousEventDigest := previous.map AuditRow.contentDigest, contentDigest }

/-- `_append_event`. The digest is taken of the arguments, before the model validates them. -/
def appendEvent (nfc : Nfc) (eventType : GovernanceEventType)
    (artifactId actorRef eventAt payloadDigest : String) : StoreTxn GovernanceAuditEvent := do
  let previous ← select fun s => s.eventsInOrder.getLast?
  let event := nextEvent previous eventType artifactId actorRef eventAt payloadDigest
  let contentDigest ← check (digestOf nfc (event "").payload)
  let event ← check (event contentDigest).validated
  insertAuditEvent event.toRow
  pure event

/-! ## Artifacts -/

/-- What `_admit_model` is told about the model. -/
structure Admission where
  modelName : String
  model : ArtifactModel
  artifactType : GovernanceArtifactType
  artifactRef : String
  createdAt : String
  actorRef : String
  behaviorId : Option String := none
  sourceSymbolId : Option String := none
  symbolLineageId : Option String := none
  artifactRevisionId : Option String := none
  parentArtifactId : Option String := none
  invalidatesMachineAttestation : Bool := false
  platformGovernanceRef : Option String := none

/-- The transaction of `_admit_model`: an artifact is stored with one event. -/
def storeArtifact (nfc : Nfc) (a : Admission) (record : StoredArtifactRecord) (payload : Json) :
    StoreTxn (StoredArtifactRecord × Bool) := do
  insertArtifact
    { artifactId := record.artifactId, artifactType := a.artifactType.value,
      artifactRef := a.artifactRef, contentDigest := record.contentDigest,
      payloadDigest := record.payloadDigest, payloadJson := payload,
      behaviorId := a.behaviorId, sourceSymbolId := a.sourceSymbolId,
      symbolLineageId := a.symbolLineageId, artifactRevisionId := a.artifactRevisionId,
      parentArtifactId := a.parentArtifactId,
      invalidatesMachineAttestation := a.invalidatesMachineAttestation,
      platformGovernanceRef := a.platformGovernanceRef,
      authorityScope := localNonAuthoritativeEvidence, createdAt := a.createdAt }
  let _ ← appendEvent nfc .artifactCached record.artifactId a.actorRef a.createdAt
    record.payloadDigest
  pure (record, false)

/-- The session of `_admit_model`: nothing is done if the artifact is stored already. -/
def admitSession (nfc : Nfc) (a : Admission) (record : StoredArtifactRecord) (payload : Json) :
    StoreClient (StoredArtifactRecord × Bool) := do
  let existing ← Client.transaction
    (select fun s => s.artifacts.find? fun row => row.artifactId = record.artifactId)
  match existing with
  | some row =>
    if row.contentDigest ≠ record.contentDigest ∨ row.payloadDigest ≠ record.payloadDigest then
      .raise (.governance ("Artifact identity collision: " ++ record.artifactId))
    else pure (record, true)
  | none => Client.transaction (storeArtifact nfc a record payload)

/-- The record `_admit_model` returns. -/
def Admission.record (a : Admission) (contentDigest payloadDigest createdAt : String) :
    StoredArtifactRecord :=
  { artifactId := artifactIdOf a.artifactType a.artifactRef contentDigest,
    artifactType := a.artifactType, artifactRef := a.artifactRef, contentDigest, payloadDigest,
    behaviorId := a.behaviorId, sourceSymbolId := a.sourceSymbolId,
    symbolLineageId := a.symbolLineageId, artifactRevisionId := a.artifactRevisionId,
    parentArtifactId := a.parentArtifactId,
    invalidatesMachineAttestation := a.invalidatesMachineAttestation,
    platformGovernanceRef := a.platformGovernanceRef, createdAt }

/-- `_admit_model`. -/
def admitModel (nfc : Nfc) (a : Admission) : StoreClient (StoredArtifactRecord × Bool) := do
  let contentDigest ← Client.ofExcept (validateContentDigest nfc a.modelName a.model)
  let payload ← Client.ofExcept (liftJson (project nfc a.model.dump))
  let payloadDigest ← Client.ofExcept (digestOf nfc a.model.dump)
  let record ← Client.ofExcept (StoredArtifactRecord.validated
    (a.record contentDigest payloadDigest a.createdAt))
  admitSession nfc a record payload.sortKeys

/-- The record of a row, validated as the source constructs it. -/
def ArtifactRow.toRecord (row : ArtifactRow) : Except StoreError StoredArtifactRecord :=
  match GovernanceArtifactType.ofValue row.artifactType with
  | none => .error (.noSuchValue row.artifactType)
  | some artifactType =>
    if row.authorityScope ≠ localNonAuthoritativeEvidence then
      .error (.noSuchValue row.authorityScope)
    else StoredArtifactRecord.validated
      { artifactId := row.artifactId, artifactType, artifactRef := row.artifactRef,
        contentDigest := row.contentDigest, payloadDigest := row.payloadDigest,
        behaviorId := row.behaviorId, sourceSymbolId := row.sourceSymbolId,
        symbolLineageId := row.symbolLineageId, artifactRevisionId := row.artifactRevisionId,
        parentArtifactId := row.parentArtifactId,
        invalidatesMachineAttestation := row.invalidatesMachineAttestation,
        platformGovernanceRef := row.platformGovernanceRef, createdAt := row.createdAt }

/-- The checks `get_artifact` makes after its query. -/
def readArtifact (nfc : Nfc) (artifactId : String) (row : Option ArtifactRow) :
    Except StoreError (StoredArtifactRecord × Json) :=
  match row with
  | none => .error (.governance ("Unknown artifact: " ++ artifactId))
  | some row => do
      let record ← row.toRecord
      let digest ← digestOf nfc row.payloadJson.toPy
      if digest ≠ row.payloadDigest then
        .error (.governance ("Stored payload digest mismatch: " ++ artifactId))
      else .ok (record, row.payloadJson)

def getArtifact (nfc : Nfc) (artifactId : String) : StoreClient (StoredArtifactRecord × Json) := do
  let row ← Client.transaction
    (select fun s => s.artifacts.find? fun row => row.artifactId = artifactId)
  Client.ofExcept (readArtifact nfc artifactId row)

/-! ## Batch admissions -/

structure AdmissionResult where
  records : List StoredArtifactRecord
  idempotentArtifactIds : List String

/-- The loops of the batch admissions: admit one item after the other, each in its own session. An
item is prepared just before it is admitted. -/
def admitEach {α : Type} (nfc : Nfc) (admission : α → StoreClient Admission) :
    List α → AdmissionResult → StoreClient AdmissionResult
  | [], result => pure result
  | item :: items, result => do
      let a ← admission item
      let (record, idempotent) ← admitModel nfc a
      admitEach nfc admission items
        { records := result.records ++ [record],
          idempotentArtifactIds :=
            if idempotent then result.idempotentArtifactIds ++ [record.artifactId]
            else result.idempotentArtifactIds }

/-- Every batch starts with the batch artifact itself. -/
def admitBatchModel (nfc : Nfc) (a : Admission) :
    StoreClient (StoredArtifactRecord × AdmissionResult) := do
  let (record, idempotent) ← admitModel nfc a
  pure (record, { records := [record],
                  idempotentArtifactIds := if idempotent then [record.artifactId] else [] })

/-- The admission of an artifact the store knows by its reference only. -/
def keyedAdmission (modelName : String) (model : Keyed → ArtifactModel)
    (artifactType : GovernanceArtifactType) (parent : StoredArtifactRecord)
    (createdAt actorRef : String) (item : Keyed) : Admission :=
  { modelName, model := model item, artifactType, artifactRef := item.ref, createdAt, actorRef,
    parentArtifactId := some parent.artifactId }

/-- The admission of the batch artifact of `admit_scenario_batch`. -/
def ScenarioSpecBatchResult.admission (batch : ScenarioSpecBatchResult)
    (createdAt actorRef : String) :
    Admission :=
  { modelName := "ScenarioSpecBatchResult", model := batch.model,
    artifactType := .scenarioSpecBatch, artifactRef := batch.procedureIdentityRef, createdAt,
    actorRef, sourceSymbolId := some batch.sourceSymbolId,
    symbolLineageId := some batch.symbolLineageId }

def specAdmission (parent : StoredArtifactRecord) (createdAt actorRef : String)
    (spec : ScenarioSpec) :
    Admission :=
  { modelName := "ScenarioSpec", model := spec.model, artifactType := .scenarioSpec,
    artifactRef := spec.ref, createdAt, actorRef, behaviorId := some spec.behaviorId,
    sourceSymbolId := some spec.sourceSymbolId, symbolLineageId := some spec.symbolLineageId,
    artifactRevisionId := some spec.artifactRevisionId,
    parentArtifactId := some parent.artifactId,
    platformGovernanceRef := spec.platformGovernanceRef }

def admitScenarioBatch (nfc : Nfc) (batch : ScenarioSpecBatchResult) (createdAt actorRef : String) :
    StoreClient AdmissionResult := do
  let (parent, result) ← admitBatchModel nfc (batch.admission createdAt actorRef)
  let result ← admitEach nfc (fun observation => pure
    (keyedAdmission "ClassificationObservation" classificationObservation .classificationObservation
      parent createdAt actorRef observation)) batch.classificationObservations result
  let result ← admitEach nfc (fun closure => pure
    (keyedAdmission "EffectClosureArtifact" effectClosureArtifact .effectClosure
      parent createdAt actorRef closure)) batch.effectClosures result
  let result ← admitEach nfc (fun resolution => pure
    (keyedAdmission "ResolutionVectorArtifact" resolutionVectorArtifact .resolutionVector
      parent createdAt actorRef resolution)) batch.resolutionVectors result
  let result ← admitEach nfc (fun budget => pure
    (keyedAdmission "ScenarioCompilerBudgetReport" scenarioCompilerBudgetReport
      .analysisBudgetReport parent createdAt actorRef budget)) batch.budgetReports result
  admitEach nfc (fun spec => pure (specAdmission parent createdAt actorRef spec))
    batch.scenarioSpecs result

/-- `_scenario_identity`: the latest admitted `ScenarioSpec` with this reference. -/
def scenarioIdentity (nfc : Nfc) (scenarioSpecRef : String) : StoreClient StoredArtifactRecord := do
  let row ← Client.transaction (select fun s =>
    ((s.artifacts.filter fun row => row.artifactType = GovernanceArtifactType.scenarioSpec.value ∧
        row.artifactRef = scenarioSpecRef).insertionSort
      fun a b => b.createdAt ≤ a.createdAt).head?)
  match row with
  | none => .raise (.governance
      ("Referenced ScenarioSpec must be admitted before dependent artifacts: " ++ scenarioSpecRef))
  | some row => do
      let (record, _) ← getArtifact nfc row.artifactId
      pure record

/-- The admission of an artifact that takes its identity from its `ScenarioSpec`. -/
def dependentAdmission (nfc : Nfc) (modelName : String) (model : SpecDependent → ArtifactModel)
    (artifactType : GovernanceArtifactType) (parent : StoredArtifactRecord)
    (createdAt actorRef : String) (item : SpecDependent) : StoreClient Admission := do
  let identity ← scenarioIdentity nfc item.scenarioSpecRef
  pure
    { modelName, model := model item, artifactType, artifactRef := item.ref, createdAt, actorRef,
      behaviorId := identity.behaviorId, sourceSymbolId := identity.sourceSymbolId,
      symbolLineageId := identity.symbolLineageId,
      artifactRevisionId := identity.artifactRevisionId,
      parentArtifactId := some parent.artifactId,
      platformGovernanceRef := item.platformGovernanceRef }

/-- The admission of an artifact with an identity of its own. -/
def boundAdmission (modelName : String) (model : ArtifactModel)
    (artifactType : GovernanceArtifactType) (parent : StoredArtifactRecord)
    (createdAt actorRef : String) (item : IdentityBound) : Admission :=
  { modelName, model, artifactType, artifactRef := item.ref, createdAt, actorRef,
    behaviorId := some item.behaviorId, sourceSymbolId := some item.sourceSymbolId,
    symbolLineageId := some item.symbolLineageId,
    artifactRevisionId := some item.artifactRevisionId,
    parentArtifactId := some parent.artifactId }

/-- The admission of the batch artifact of `admit_bdd_batch`. -/
def BddCompilationBatch.admission (batch : BddCompilationBatch) (createdAt actorRef : String) :
    Admission :=
  { modelName := "BddCompilationBatch", model := batch.model,
    artifactType := .bddCompilationBatch, artifactRef := batch.scenarioSpecBatchDigest,
    createdAt, actorRef }

def admitBddBatch (nfc : Nfc) (batch : BddCompilationBatch) (createdAt actorRef : String) :
    StoreClient AdmissionResult := do
  let (parent, result) ← admitBatchModel nfc (batch.admission createdAt actorRef)
  let result ← admitEach nfc (fun artifact : GherkinArtifact => pure
    (boundAdmission "GherkinArtifact" artifact.model .gherkinArtifact parent createdAt actorRef
      artifact.toIdentityBound)) batch.gherkinArtifacts result
  let result ← admitEach nfc (fun manifest => pure
    (boundAdmission "TraceabilityManifest" (traceabilityManifest manifest) .traceabilityManifest
      parent createdAt actorRef manifest)) batch.traceabilityManifests result
  admitEach nfc
    (dependentAdmission nfc "CandidateBdd" candidateBdd .candidateBdd parent createdAt actorRef)
    batch.candidateBdds result

/-- The admission of the batch artifact of `admit_runtime_batch`. -/
def RuntimeVerificationBatch.admission (batch : RuntimeVerificationBatch)
    (createdAt actorRef : String) : Admission :=
  { modelName := "RuntimeVerificationBatch", model := batch.model,
    artifactType := .runtimeVerificationBatch, artifactRef := batch.planBatchDigest, createdAt,
    actorRef }

def admitRuntimeBatch (nfc : Nfc) (batch : RuntimeVerificationBatch) (createdAt actorRef : String) :
    StoreClient AdmissionResult := do
  let (parent, result) ← admitBatchModel nfc (batch.admission createdAt actorRef)
  let result ← admitEach nfc (fun execution => pure
    (keyedAdmission "RuntimeExecutionRecord" runtimeExecutionRecord .runtimeExecutionRecord
      parent createdAt actorRef execution)) batch.executionRecords result
  admitEach nfc
    (dependentAdmission nfc "RuntimeVerificationResult" runtimeVerificationResult
      .runtimeVerificationResult parent createdAt actorRef)
    batch.verificationResults result

/-! ## Baselines -/

/-- `_ensure_idempotent_binding`, on the digest of the row with the key, if there is one. -/
def ensureIdempotentBinding (keyValue contentDigest : String) (stored : Option String) :
    Except StoreError Bool :=
  match stored with
  | none => .ok false
  | some digest =>
    if digest ≠ contentDigest then
      .error (.governance ("Governance binding identity conflict: " ++ keyValue))
    else .ok true

/-- The transaction that stores a registration and its event. -/
def storeBaseline (nfc : Nfc) (actorRef : String) (registration : BaselineRegistration) :
    StoreTxn BaselineRegistration := do
  insertBaseline registration
  let _ ← appendEvent nfc .referenceBaselineCached registration.artifactId actorRef
    registration.effectiveFrom registration.contentDigest
  pure registration

def registerBaseline (nfc : Nfc) (artifactId authorityRef effectiveFrom actorRef : String) :
    StoreClient BaselineRegistration := do
  let (record, _) ← getArtifact nfc artifactId
  match record.artifactType, record.behaviorId with
  | .scenarioSpec, some behaviorId =>
    if behaviorId = "" then
      .raise (.governance "Only identity-bound ScenarioSpec artifacts can be baselines")
    else do
      let registrationId := "baseline-" ++ sha256Hex24 [artifactId, authorityRef, effectiveFrom]
      let contentDigest ← Client.ofExcept (digestOf nfc (.record
        [("registration_id", .str registrationId), ("artifact_id", .str artifactId),
         ("behavior_id", .str behaviorId), ("authority_ref", .str authorityRef),
         ("effective_from", .str effectiveFrom), ("effective_to", .none)]))
      let registration ← Client.ofExcept (BaselineRegistration.validated
        { registrationId, artifactId, behaviorId, authorityRef, effectiveFrom,
          effectiveTo := none, contentDigest })
      let stored ← Client.transaction (select fun s =>
        (s.baselines.find? fun r => r.registrationId = registration.registrationId).map
          BaselineRegistration.contentDigest)
      if ← Client.ofExcept (ensureIdempotentBinding registration.registrationId
          registration.contentDigest stored) then
        pure registration
      else Client.transaction (storeBaseline nfc actorRef registration)
  | _, _ => .raise (.governance "Only identity-bound ScenarioSpec artifacts can be baselines")

/-- `payload.get(key)`. -/
def payloadGet (payload : Json) (key : String) : Option Json :=
  match payload with
  | .obj members => (members.find? fun m => m.1 = key).map Prod.snd
  | _ => none

/-- `payload.get(key, [])`, to be iterated over. -/
def payloadItems (payload : Json) (key : String) : Except StoreError (List Json) :=
  match payloadGet payload key with
  | none => .ok []
  | some (.arr items) => .ok items
  | some _ => .error (.payloadShape key)

def payloadStrings (payload : Json) (key : String) : Except StoreError (List String) := do
  let items ← payloadItems payload key
  items.mapM fun item =>
    match item with
    | .str s => .ok s
    | _ => .error (.payloadShape key)

/-- `sorted(items, key=lambda item: canonical_json_bytes(item))`. -/
def sortedByBytes (nfc : Nfc) (items : List Json) : Except StoreError (List Json) := do
  let keyed ← items.mapM fun item => do
    let octets ← liftJson (canonicalJsonBytes nfc item.toPy)
    .ok (octets, item)
  .ok ((keyed.insertionSort fun a b => a.1 ≤ b.1).map Prod.snd)

/-- `_scenario_signature`. -/
def scenarioSignature (nfc : Nfc) (payload : Json) : Except StoreError String := do
  let get := fun (j : Json) (key : String) => (payloadGet j key).getD .null
  let preconditions ← payloadItems payload "preconditions"
  let preconditions ← sortedByBytes nfc (preconditions.map fun item => .obj
    [("technical_fact_ref", get item "technical_fact_ref"), ("modality", get item "modality"),
     ("constraint_assessment_ref", get item "constraint_assessment_ref")])
  let expected ← payloadItems payload "expected_effects"
  let expected ← sortedByBytes nfc expected
  let alternative ← payloadItems payload "alternative_or_conditional_effects"
  let alternative ← sortedByBytes nfc alternative
  digestOf nfc (Json.toPy (.obj
    [("behavior_id", get payload "behavior_id"),
     ("procedure_identity_ref", get payload "procedure_identity_ref"),
     ("action", get payload "action"), ("preconditions", .arr preconditions),
     ("expected_effects", .arr expected),
     ("alternative_or_conditional_effects", .arr alternative)]))

/-- The baseline in force: the latest registration by `effective_from`, compared as texts. -/
def baselineInForce (behaviorId comparedAt : String) (s : Store) : Option BaselineRegistration :=
  ((s.baselines.filter fun b => b.behaviorId = behaviorId ∧ b.effectiveFrom ≤ comparedAt ∧
      (b.effectiveTo.all fun last => comparedAt < last)).insertionSort
    fun a b => b.effectiveFrom ≤ a.effectiveFrom).head?

def BaselineComparisonResult.toRow (r : BaselineComparisonResult) : ComparisonRow :=
  ⟨r.comparisonId, r.candidateArtifactId, r.baselineArtifactId, r.behaviorId, r.status.value,
    r.candidateSignatureDigest, r.baselineSignatureDigest, r.classificationCandidate,
    r.evidenceRefs, r.comparedAt, r.contentDigest⟩

/-- A strict `str` field given an optional text. -/
def requiredField (model field : String) : Option String → Except StoreError String
  | some text => .ok text
  | none => .error (.validation model field)

/-- The session that stores a comparison and its event. -/
def compareSession (nfc : Nfc) (actorRef : String) (result : BaselineComparisonResult) :
    StoreTxn BaselineComparisonResult := do
  insertOrIgnoreComparison result.toRow
  let _ ← appendEvent nfc .baselineCompared result.candidateArtifactId actorRef result.comparedAt
    result.contentDigest
  pure result

/-- What the baseline in force says about the candidate. -/
structure Verdict where
  status : BaselineComparisonStatus
  baselineArtifactId : Option String := none
  baselineSignature : Option String := none
  classification : Option String := none

def baselineVerdict (nfc : Nfc) (candidateSignature : String) :
    Option BaselineRegistration → StoreClient Verdict
  | none => pure { status := .noBaseline }
  | some registration => do
      let (_, payload) ← getArtifact nfc registration.artifactId
      let signature ← Client.ofExcept (scenarioSignature nfc payload)
      pure
        { status := if signature = candidateSignature then .match_ else .conflict,
          baselineArtifactId := some registration.artifactId,
          baselineSignature := some signature,
          classification :=
            if signature = candidateSignature then none
            else some baselineBehaviorViolationCandidate }

def compareToBaseline (nfc : Nfc) (candidateArtifactId comparedAt actorRef : String) :
    StoreClient BaselineComparisonResult := do
  let (candidate, candidatePayload) ← getArtifact nfc candidateArtifactId
  match candidate.artifactType, candidate.behaviorId with
  | .scenarioSpec, some behaviorId =>
    if behaviorId = "" then
      .raise (.governance "Baseline comparison requires a ScenarioSpec candidate")
    else do
      let baseline ← Client.transaction (select (baselineInForce behaviorId comparedAt))
      let candidateSignature ← Client.ofExcept (scenarioSignature nfc candidatePayload)
      let ⟨status, baselineArtifactId, baselineSignature, classification⟩ ←
        baselineVerdict nfc candidateSignature baseline
      let evidenceRefs ← Client.ofExcept (payloadStrings candidatePayload "evidence_refs")
      let comparisonId := "comparison-" ++
        sha256Hex24 [candidateArtifactId, formatted baselineArtifactId, comparedAt]
      let contentDigest ← Client.ofExcept (digestOf nfc (.record
        [("comparison_id", .str comparisonId),
         ("candidate_artifact_id", .str candidateArtifactId),
         ("baseline_artifact_id", optionalStr baselineArtifactId),
         ("behavior_id", .str behaviorId),
         ("source_symbol_id", optionalStr candidate.sourceSymbolId),
         ("symbol_lineage_id", optionalStr candidate.symbolLineageId),
         ("artifact_revision_id", optionalStr candidate.artifactRevisionId),
         ("status", .enum (.str status.value)),
         ("candidate_signature_digest", .str candidateSignature),
         ("baseline_signature_digest", optionalStr baselineSignature),
         ("classification_candidate", optionalStr classification),
         ("evidence_refs", strTuple evidenceRefs), ("compared_at", .str comparedAt)]))
      let required := requiredField "BaselineComparisonResult"
      let sourceSymbolId ← Client.ofExcept (required "source_symbol_id" candidate.sourceSymbolId)
      let symbolLineageId ← Client.ofExcept
        (required "symbol_lineage_id" candidate.symbolLineageId)
      let artifactRevisionId ← Client.ofExcept
        (required "artifact_revision_id" candidate.artifactRevisionId)
      let result ← Client.ofExcept (BaselineComparisonResult.validated
        { comparisonId, candidateArtifactId, baselineArtifactId, behaviorId, sourceSymbolId,
          symbolLineageId, artifactRevisionId, status,
          candidateSignatureDigest := candidateSignature,
          baselineSignatureDigest := baselineSignature, classificationCandidate := classification,
          evidenceRefs, comparedAt, contentDigest })
      Client.transaction (compareSession nfc actorRef result)
  | _, _ => .raise (.governance "Baseline comparison requires a ScenarioSpec candidate")

/-! ## Amendments and bindings -/

/-- The session that stores an amendment and its event. -/
def amendSession (nfc : Nfc) (amendment : AmendmentRecord) : StoreTxn Unit := do
  insertAmendment
    ⟨amendment.amendmentId, amendment.originalArtifactId, amendment.amendedArtifactId,
      amendment.editorRef, amendment.reason, amendment.amendedAt, amendment.contentDigest⟩
  let _ ← appendEvent nfc .reviewAmendmentCached amendment.amendedArtifactId amendment.editorRef
    amendment.amendedAt amendment.contentDigest

/-- What `amend_scenario_spec` tells `_admit_model`. -/
def amendedAdmission (originalArtifactId : String) (amendedSpec : ScenarioSpec)
    (editorRef amendedAt : String) : Admission :=
  { modelName := "ScenarioSpec", model := amendedSpec.model, artifactType := .scenarioSpec,
    artifactRef := amendedSpec.ref, createdAt := amendedAt, actorRef := editorRef,
    behaviorId := some amendedSpec.behaviorId,
    sourceSymbolId := some amendedSpec.sourceSymbolId,
    symbolLineageId := some amendedSpec.symbolLineageId,
    artifactRevisionId := some amendedSpec.artifactRevisionId,
    parentArtifactId := some originalArtifactId, invalidatesMachineAttestation := true,
    platformGovernanceRef := amendedSpec.platformGovernanceRef }

/-- What `amend_scenario_spec` does once the amended spec is admitted. -/
def recordAmendment (nfc : Nfc) (originalArtifactId : String) (amendedSpec : ScenarioSpec)
    (editorRef reason amendedAt : String) (record : StoredArtifactRecord) :
    StoreClient (StoredArtifactRecord × AmendmentRecord) := do
  let amendmentId := "amendment-" ++
    sha256Hex24 [originalArtifactId, record.artifactId, editorRef, amendedAt]
  let contentDigest ← Client.ofExcept (digestOf nfc (.record
    [("amendment_id", .str amendmentId), ("original_artifact_id", .str originalArtifactId),
     ("amended_artifact_id", .str record.artifactId),
     ("behavior_id", .str amendedSpec.behaviorId),
     ("source_symbol_id", .str amendedSpec.sourceSymbolId),
     ("symbol_lineage_id", .str amendedSpec.symbolLineageId),
     ("artifact_revision_id", .str amendedSpec.artifactRevisionId),
     ("editor_ref", .str editorRef), ("reason", .str reason),
     ("invalidates_machine_attestation", .bool true), ("amended_at", .str amendedAt)]))
  let amendment ← Client.ofExcept (AmendmentRecord.validated
    { amendmentId, originalArtifactId, amendedArtifactId := record.artifactId,
      behaviorId := amendedSpec.behaviorId, sourceSymbolId := amendedSpec.sourceSymbolId,
      symbolLineageId := amendedSpec.symbolLineageId,
      artifactRevisionId := amendedSpec.artifactRevisionId, editorRef, reason, amendedAt,
      contentDigest })
  Client.transaction (amendSession nfc amendment)
  pure (record, amendment)

def amendScenarioSpec (nfc : Nfc) (originalArtifactId : String) (amendedSpec : ScenarioSpec)
    (editorRef reason amendedAt : String) :
    StoreClient (StoredArtifactRecord × AmendmentRecord) := do
  let (original, _) ← getArtifact nfc originalArtifactId
  if original.artifactType ≠ .scenarioSpec then
    .raise (.governance "Only ScenarioSpec amendment is admitted by this adapter")
  else if some amendedSpec.behaviorId ≠ original.behaviorId then
    .raise (.governance "Amendment cannot change behavior_id")
  else if some amendedSpec.sourceSymbolId ≠ original.sourceSymbolId then
    .raise (.governance "Amendment cannot change source_symbol_id")
  else if some amendedSpec.symbolLineageId ≠ original.symbolLineageId then
    .raise (.governance "Amendment cannot change symbol_lineage_id")
  else do
    let (record, _) ← admitModel nfc
      (amendedAdmission originalArtifactId amendedSpec editorRef amendedAt)
    recordAmendment nfc originalArtifactId amendedSpec editorRef reason amendedAt record

/-- The transaction that stores a platform decision and its event. -/
def storePlatformDecision (nfc : Nfc) (envelope : PlatformDecisionEnvelope) : StoreTxn Unit := do
  insertPlatformDecision envelope
  let _ ← appendEvent nfc .externalPlatformDecisionCached envelope.artifactId
    envelope.authorityRef envelope.effectiveAt envelope.contentDigest

def bindPlatformDecision (nfc : Nfc) (envelope : PlatformDecisionEnvelope) : StoreClient Unit := do
  let expected ← Client.ofExcept (digestOf nfc (.model envelope.fields))
  let _ ← Client.ofExcept
    (requireDigest "PlatformDecisionEnvelope" expected envelope.contentDigest)
  let (record, _) ← getArtifact nfc envelope.artifactId
  if record.contentDigest ≠ envelope.artifactDigest then
    .raise (.governance "Platform decision artifact digest mismatch")
  else do
    let stored ← Client.transaction (select fun s =>
      (s.platformDecisions.find? fun r => r.bindingId = envelope.bindingId).map
        PlatformDecisionEnvelope.contentDigest)
    if ← Client.ofExcept (ensureIdempotentBinding envelope.bindingId envelope.contentDigest
        stored) then
      pure ()
    else Client.transaction (storePlatformDecision nfc envelope)

/-- The transaction that stores a certification and its event. -/
def storeCertification (nfc : Nfc) (envelope : CertificationEnvelope) : StoreTxn Unit := do
  insertCertification envelope
  let _ ← appendEvent nfc .externalCertificationCached envelope.artifactId
    envelope.authorityRef envelope.validFrom envelope.contentDigest

def bindCertification (nfc : Nfc) (envelope : CertificationEnvelope) : StoreClient Unit := do
  let expected ← Client.ofExcept (digestOf nfc (.model envelope.fields))
  let _ ← Client.ofExcept (requireDigest "CertificationEnvelope" expected envelope.contentDigest)
  let (record, _) ← getArtifact nfc envelope.artifactId
  if record.contentDigest ≠ envelope.artifactDigest then
    .raise (.governance "Certification artifact digest mismatch")
  else do
    let stored ← Client.transaction (select fun s =>
      (s.certifications.find? fun r =>
        r.certificationBindingId = envelope.certificationBindingId).map
        CertificationEnvelope.contentDigest)
    if ← Client.ofExcept (ensureIdempotentBinding envelope.certificationBindingId
        envelope.contentDigest stored) then
      pure ()
    else Client.transaction (storeCertification nfc envelope)

end AtlasDb.Governance
