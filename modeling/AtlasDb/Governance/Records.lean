import AtlasDb.Governance.Baselines
import Mathlib.Tactic.MkIffOfInductiveProp

/-!
# What an admission returns and what is stored

`_admit_model` builds the record it returns from its arguments. If the artifact is stored already
the row stays as it is, so the record describes the row only if the row was written for the same
arguments: the identity of an artifact is its type, reference and content, and says nothing of its
parent, its timestamp or whether it invalidates an attestation.
-/

namespace AtlasDb.Governance

open Core Core.Timestamp Lib

variable {nfc : Nfc}

/-! ## Every artifact can be read -/

def Store.ArtifactsReadable (nfc : Nfc) (s : Store) : Prop := ∀ row ∈ s.artifacts, row.Readable nfc

theorem transactionsKeep_readable :
    TransactionsKeep nfc (Store.ArtifactsReadable nfc) fun _ => True where
  storeArtifact {a _ _} _ hat hpayload := keeps_insertThenAppend fun s _ hs row hrow => by
    rcases List.mem_append.1 hrow with hrow | hrow
    · exact hs row hrow
    · rw [List.mem_singleton.1 hrow]
      exact ⟨⟨a.artifactType, GovernanceArtifactType.ofValue_value _⟩, rfl, hat, hpayload⟩
  storeBaseline _ _ _ := keeps_insertThenAppend fun _ _ hs => hs
  compareSession _ := keeps_insertThenAppend fun s _ hs => by
    split
    · exact hs
    · exact hs
  amendSession _ := keeps_insertThenAppend fun _ _ hs => hs
  storePlatformDecision _ _ := keeps_insertThenAppend fun _ _ hs => hs
  storeCertification _ _ := keeps_insertThenAppend fun _ _ hs => hs

theorem artifactsReadable_of_reachable {sys : System Store StoreError Unit}
    (h : Reachable nfc sys) :
    sys.state.ArtifactsReadable nfc :=
  Interleaving.invariant (fun _ => Starts.preserves transactionsKeep_readable) h
    (by intro c hc; cases hc) (by intro row hrow; cases hrow)

theorem artifactIds_nodup_of_reachable {sys : System Store StoreError Unit}
    (h : Reachable nfc sys) :
    (sys.state.artifacts.map ArtifactRow.artifactId).Nodup :=
  (paired_of_reachable h).artifactIds

/-! ## What `_admit_model` did -/

/-- The row it stores, with the timestamp as it came. -/
def Admission.row (a : Admission) (contentDigest payloadDigest : String) (payload : Json) :
    ArtifactRow :=
  { artifactId := artifactIdOf a.artifactType a.artifactRef contentDigest,
    artifactType := a.artifactType.value, artifactRef :=
    a.artifactRef, contentDigest, payloadDigest,
    payloadJson := payload, behaviorId := a.behaviorId, sourceSymbolId := a.sourceSymbolId,
    symbolLineageId := a.symbolLineageId, artifactRevisionId := a.artifactRevisionId,
    parentArtifactId := a.parentArtifactId,
    invalidatesMachineAttestation := a.invalidatesMachineAttestation,
    platformGovernanceRef := a.platformGovernanceRef,
    authorityScope := localNonAuthoritativeEvidence, createdAt := a.createdAt }

/-- The row the query of `get_artifact` and `_admit_model` finds. -/
def Store.artifact? (s : Store) (artifactId : String) : Option ArtifactRow :=
  s.artifacts.find? fun row => row.artifactId = artifactId

/-- What an admission relies on besides the store. -/
structure Admission.Accepted (nfc : Nfc) (a : Admission)
    (contentDigest payloadDigest createdAt : String) (payload : Json) : Prop where
  content : validateContentDigest nfc a.modelName a.model = .ok contentDigest
  stored : digestOf nfc payload.toPy = .ok payloadDigest
  createdAt : canonicalTimestamp a.createdAt = some createdAt

variable {record : StoredArtifactRecord} {s s' : Store}

/-- What an admission that returned has done. -/
theorem admitModel_eq_ok {a : Admission}
    {idempotent : Bool} (h : (admitModel nfc a).run s = (.ok (record, idempotent), s')) :
    ∃ contentDigest payloadDigest createdAt payload,
      a.Accepted nfc contentDigest payloadDigest createdAt payload ∧
      record = a.record contentDigest payloadDigest createdAt ∧
      ((∃ row, s.artifact? record.artifactId = some row ∧ row.contentDigest = contentDigest ∧
          row.payloadDigest = payloadDigest ∧ s' = s) ∨
        s.artifact? record.artifactId = none ∧
          s'.artifacts = s.artifacts ++ [a.row contentDigest payloadDigest payload]) := by
  obtain ⟨contentDigest, hcontent, h⟩ := run_reads_bind_ok (ReadsOnly.ofExcept _) h
  obtain ⟨payload, hpayload, h⟩ := run_reads_bind_ok (ReadsOnly.ofExcept _) h
  obtain ⟨payloadDigest, hdigest, h⟩ := run_reads_bind_ok (ReadsOnly.ofExcept _) h
  obtain ⟨validated, hvalid, h⟩ := run_reads_bind_ok (ReadsOnly.ofExcept _) h
  have hrecord := ofExcept_run_ok hvalid
  simp only [StoredArtifactRecord.validated, Except.bind_eq_ok, timestampField_eq_ok] at hrecord
  obtain ⟨createdAt, hcreated, hrecord⟩ := hrecord
  cases hrecord
  have hstored : digestOf nfc payload.sortKeys.toPy = .ok payloadDigest := by
    rw [← ofExcept_run_ok hdigest, digestOf, digestOf,
      canonicalDigest_readBack a.model.plain_dump (liftJson_eq_ok.mp (ofExcept_run_ok hpayload))]
  refine ⟨contentDigest, payloadDigest, createdAt, payload.sortKeys,
    ⟨ofExcept_run_ok hcontent, hstored, hcreated⟩, ?_⟩
  obtain ⟨existing, hquery, h⟩ := run_reads_bind_ok (fun _ => rfl) h
  have hfind : s.artifact? (artifactIdOf a.artifactType a.artifactRef contentDigest) = existing :=
    Except.ok.inj (Prod.mk.inj hquery).1
  cases existing with
  | some row =>
    dsimp only at h
    split at h
    · cases h
    · next hsame =>
        cases h
        obtain ⟨hcd, hpd⟩ := not_or.1 hsame
        exact ⟨rfl, .inl ⟨row, hfind, not_ne_iff.1 hcd, not_ne_iff.1 hpd, rfl⟩⟩
  | none =>
    have hbody := transaction_run_ok h
    obtain ⟨u, s₁, hinsert, hrest⟩ := Txn.bind_eq_ok.mp hbody
    obtain ⟨rfl, -⟩ := insertRow_eq_ok hinsert
    obtain ⟨event, s₂, happend, hrest⟩ := Txn.bind_eq_ok.mp hrest
    obtain ⟨_, _, -, -, rfl⟩ := appendEvent_eq_ok happend
    cases hrest
    exact ⟨rfl, .inr ⟨hfind, rfl⟩⟩

/-! ## What `get_artifact` returns -/

theorem GovernanceArtifactType.value_of_ofValue {text : String} {t : GovernanceArtifactType}
    (h : GovernanceArtifactType.ofValue text = some t) : text = t.value := by
  unfold GovernanceArtifactType.ofValue at h
  have hvalue := List.find?_some h
  exact (of_decide_eq_true hvalue).symm

variable {row : ArtifactRow}

theorem ArtifactRow.Readable.toRecord_eq (h : row.Readable nfc) :
    ∃ t createdAt, row.artifactType = t.value ∧ canonicalTimestamp row.createdAt = some createdAt ∧
      row.toRecord = .ok
        { artifactId := row.artifactId, artifactType := t, artifactRef := row.artifactRef,
          contentDigest := row.contentDigest, payloadDigest := row.payloadDigest,
          behaviorId := row.behaviorId, sourceSymbolId := row.sourceSymbolId,
          symbolLineageId := row.symbolLineageId, artifactRevisionId := row.artifactRevisionId,
          parentArtifactId := row.parentArtifactId,
          invalidatesMachineAttestation := row.invalidatesMachineAttestation,
          platformGovernanceRef := row.platformGovernanceRef, createdAt } := by
  obtain ⟨t, ht⟩ := h.artifactType
  obtain ⟨createdAt, hcreated⟩ := h.createdAt
  refine ⟨t, createdAt, GovernanceArtifactType.value_of_ofValue ht, hcreated, ?_⟩
  simp only [ArtifactRow.toRecord, ht, h.authorityScope, ne_eq, not_true, if_false,
    StoredArtifactRecord.validated, timestampField, hcreated, bind, Except.bind]

theorem getArtifact_of_found {s : Store} {artifactId : String}
    (hrow : row.Readable nfc) (hfind : s.artifact? artifactId = some row) :
    ((getArtifact nfc artifactId).run s).1 =
      row.toRecord.map fun record => (record, row.payloadJson) := by
  obtain ⟨record, hrecord⟩ := hrow.toRecord
  have hread : readArtifact nfc artifactId (some row) = .ok (record, row.payloadJson) := by
    simp [readArtifact, hrecord, hrow.payload, bind, Except.bind]
  have hrun : (getArtifact nfc artifactId).run s =
      (Client.ofExcept (readArtifact nfc artifactId (s.artifact? artifactId))).run s := rfl
  rw [hrun, hfind, hread, hrecord]
  rfl

/-- The admission says of the artifact what the row says. -/
@[mk_iff]
structure Admission.Describes (a : Admission) (row : ArtifactRow) : Prop where
  artifactType : row.artifactType = a.artifactType.value
  artifactRef : row.artifactRef = a.artifactRef
  behaviorId : row.behaviorId = a.behaviorId
  sourceSymbolId : row.sourceSymbolId = a.sourceSymbolId
  symbolLineageId : row.symbolLineageId = a.symbolLineageId
  artifactRevisionId : row.artifactRevisionId = a.artifactRevisionId
  parentArtifactId : row.parentArtifactId = a.parentArtifactId
  invalidatesMachineAttestation : row.invalidatesMachineAttestation =
    a.invalidatesMachineAttestation
  platformGovernanceRef : row.platformGovernanceRef = a.platformGovernanceRef
  createdAt : canonicalTimestamp row.createdAt = canonicalTimestamp a.createdAt

instance (a : Admission) (row : ArtifactRow) : Decidable (a.Describes row) :=
  decidable_of_iff _ (Admission.describes_iff a row).symm

theorem GovernanceArtifactType.value_injective {t t' : GovernanceArtifactType}
    (h : t.value = t'.value) : t = t' := by
  have ht := GovernanceArtifactType.ofValue_value t
  rw [h, GovernanceArtifactType.ofValue_value] at ht
  exact (Option.some.inj ht).symm

theorem toRecord_eq_record_iff {a : Admission}
    {contentDigest payloadDigest createdAt : String} (hrow : row.Readable nfc)
    (hid : row.artifactId = artifactIdOf a.artifactType a.artifactRef contentDigest)
    (hcontent : row.contentDigest = contentDigest) (hpayload : row.payloadDigest = payloadDigest)
    (hcreated : canonicalTimestamp a.createdAt = some createdAt) :
    row.toRecord = .ok (a.record contentDigest payloadDigest createdAt) ↔ a.Describes row := by
  obtain ⟨t, stored, htype, hstored, hrecord⟩ := hrow.toRecord_eq
  rw [hrecord]
  constructor
  · intro h
    simp only [Admission.record, Except.ok.injEq, StoredArtifactRecord.mk.injEq] at h
    obtain ⟨-, rfl, href, -, -, hbehavior, hsource, hlineage, hrevision, hparent, hinvalidates,
      hplatform, rfl⟩ := h
    exact ⟨htype, href, hbehavior, hsource, hlineage, hrevision, hparent, hinvalidates, hplatform,
      hstored.trans hcreated.symm⟩
  · intro h
    have ht : t = a.artifactType :=
      GovernanceArtifactType.value_injective (htype.symm.trans h.artifactType)
    have hat : stored = createdAt :=
      Option.some.inj (hstored.symm.trans (h.createdAt.trans hcreated))
    simp only [Admission.record, hid, ht, h.artifactRef, hcontent, hpayload, h.behaviorId,
      h.sourceSymbolId, h.symbolLineageId, h.artifactRevisionId, h.parentArtifactId,
      h.invalidatesMachineAttestation, h.platformGovernanceRef, hat]

theorem Admission.describes_row (a : Admission) (contentDigest payloadDigest : String)
    (payload : Json) : a.Describes (a.row contentDigest payloadDigest payload) :=
  ⟨rfl, rfl, rfl, rfl, rfl, rfl, rfl, rfl, rfl, rfl⟩

section Rows

variable {s : Store} {artifactId : String} {row : ArtifactRow}

theorem artifact?_some (h : s.artifact? artifactId = some row) :
    row ∈ s.artifacts ∧ row.artifactId = artifactId :=
  ⟨List.mem_of_find?_eq_some h, by simpa using List.find?_some h⟩

theorem artifact?_none (h : s.artifact? artifactId = none) :
    ∀ row ∈ s.artifacts, row.artifactId ≠ artifactId := by
  intro row hrow
  simpa using List.find?_eq_none.mp h row hrow

theorem artifact?_append {s' : Store} (hnone : s.artifact? artifactId = none)
    (hid : row.artifactId = artifactId) (h : s'.artifacts = s.artifacts ++ [row]) :
    s'.artifact? artifactId = some row := by
  have hfind : s.artifacts.find? (fun r => r.artifactId = artifactId) = none := hnone
  rw [Store.artifact?, h, List.find?_append, hfind]
  simp [hid]

end Rows

/-! ## After an admission -/

/-- The row under the identity of an admitted artifact: it was there before, or it was written for
the admission. -/
structure StoredFor (nfc : Nfc) (a : Admission) (s s' : Store) (record : StoredArtifactRecord)
    (row : ArtifactRow) : Prop where
  found : s'.artifact? record.artifactId = some row
  readable : row.Readable nfc
  before : row ∈ s.artifacts ∨
    (∀ r ∈ s.artifacts, r.artifactId ≠ record.artifactId) ∧ a.Describes row

/-- A fact that holds of the rows an admission writes holds of the stored row exactly if it held of
the row under that identity before. -/
theorem StoredFor.iff_before {a : Admission} (h : StoredFor nfc a s s' record row)
    (hnodup : (s.artifacts.map ArtifactRow.artifactId).Nodup) {P : ArtifactRow → Prop}
    (hnew : a.Describes row → P row) :
    P row ↔ ∀ r ∈ s.artifacts, r.artifactId = record.artifactId → P r := by
  have hid := (artifact?_some h.found).2
  rcases h.before with hmem | ⟨hfresh, hdescribes⟩
  · constructor
    · intro hP r hr hrid
      rwa [List.inj_on_of_nodup_map hnodup hr hmem (hrid.trans hid.symm)]
    · exact fun hall => hall row hmem hid
  · exact iff_of_true (hnew hdescribes) fun r hr hrid => absurd hrid (hfresh r hr)

theorem admitModel_storedFor {a : Admission} {idempotent : Bool} (hs : s.ArtifactsReadable nfc)
    (h : (admitModel nfc a).run s = (.ok (record, idempotent), s')) :
    ∃ row contentDigest payloadDigest createdAt,
      validateContentDigest nfc a.modelName a.model = .ok contentDigest ∧
      canonicalTimestamp a.createdAt = some createdAt ∧
      record = a.record contentDigest payloadDigest createdAt ∧
      row.contentDigest = contentDigest ∧ row.payloadDigest = payloadDigest ∧
      StoredFor nfc a s s' record row := by
  obtain ⟨contentDigest, payloadDigest, createdAt, payload, haccepted, hrecord,
    ⟨row, hfind, hcd, hpd, rfl⟩ | ⟨hnone, hartifacts⟩⟩ := admitModel_eq_ok h
  · have hmem := (artifact?_some hfind).1
    exact ⟨row, contentDigest, payloadDigest, createdAt, haccepted.content, haccepted.createdAt,
      hrecord, hcd, hpd, hfind, hs row hmem, .inl hmem⟩
  · refine ⟨a.row contentDigest payloadDigest payload, contentDigest, payloadDigest, createdAt,
      haccepted.content, haccepted.createdAt, hrecord, rfl, rfl,
      artifact?_append hnone ?_ hartifacts, ?_,
      .inr ⟨artifact?_none hnone, a.describes_row _ _ _⟩⟩
    · rw [hrecord]
      rfl
    · exact ⟨⟨a.artifactType, GovernanceArtifactType.ofValue_value _⟩, rfl,
        ⟨createdAt, haccepted.createdAt⟩, haccepted.stored⟩

theorem amendSession_artifacts {amendment : AmendmentRecord}
    (h : amendSession nfc amendment s = .ok ((), s')) : s'.artifacts = s.artifacts := by
  obtain ⟨-, contentDigest, canonical, rfl⟩ := insertThenAppend_eq_ok h
  rfl

theorem amendScenarioSpec_eq_ok {originalArtifactId : String} {amendedSpec : ScenarioSpec}
    {editorRef reason amendedAt : String} {amendment : AmendmentRecord}
    (h : (amendScenarioSpec nfc originalArtifactId amendedSpec editorRef reason amendedAt).run s =
      (.ok (record, amendment), s')) :
    ∃ idempotent s₁,
      (admitModel nfc (amendedAdmission originalArtifactId amendedSpec editorRef amendedAt)).run s =
        (.ok (record, idempotent), s₁) ∧ amendSession nfc amendment s₁ = .ok ((), s') := by
  obtain ⟨original, -, h⟩ := run_reads_bind_ok (readsOnly_getArtifact nfc _) h
  dsimp only at h
  iterate 4
    split at h
    · cases h
  obtain ⟨⟨admitted, idempotent⟩, s₁, hadmit, h⟩ := run_bind_ok h
  obtain ⟨contentDigest, -, h⟩ := run_reads_bind_ok (ReadsOnly.ofExcept _) h
  obtain ⟨validated, -, h⟩ := run_reads_bind_ok (ReadsOnly.ofExcept _) h
  obtain ⟨u, s₂, hsession, h⟩ := run_bind_ok h
  cases h
  exact ⟨idempotent, s₁, hadmit, transaction_run_ok hsession⟩

theorem validateContentDigest_scenarioSpec {spec : ScenarioSpec} {modelName contentDigest : String}
    (h : validateContentDigest nfc modelName spec.model = .ok contentDigest) :
    contentDigest = spec.contentDigest := by
  have hbind : validateContentDigest nfc modelName spec.model =
      (digestOf nfc spec.model.dumpWithoutDigest >>= fun expected =>
        requireDigest modelName expected spec.contentDigest) := rfl
  rw [hbind, Except.bind_eq_ok] at h
  obtain ⟨expected, -, h⟩ := h
  unfold requireDigest at h
  split at h
  · exact (Except.ok.inj h).symm
  · cases h

/-- **What is returned is what is stored** exactly when the row under the identity of the artifact,
if there was one, was written for the same arguments; and an amended artifact is stored as one
exactly when a row with its content, if there was one, was stored as an amendment of the same
original. -/
theorem returned_stored_iff (nfc : Nfc) (sys : System Store StoreError Unit)
    (h : Reachable nfc sys) :
    (∀ (a : Admission) (contentDigest : String) (record : StoredArtifactRecord) (idempotent : Bool)
        (s' : Store), validateContentDigest nfc a.modelName a.model = .ok contentDigest →
      (admitModel nfc a).run sys.state = (.ok (record, idempotent), s') →
      ((∃ payload, ((getArtifact nfc record.artifactId).run s').1 = .ok (record, payload)) ↔
        ∀ row ∈ sys.state.artifacts,
          row.artifactId = artifactIdOf a.artifactType a.artifactRef contentDigest →
            a.Describes row)) ∧
    ∀ (originalArtifactId : String) (amendedSpec : ScenarioSpec)
    (editorRef reason amendedAt : String)
        (record : StoredArtifactRecord) (amendment : AmendmentRecord) (s' : Store),
      (amendScenarioSpec nfc originalArtifactId amendedSpec editorRef reason
        amendedAt).run sys.state =
        (.ok (record, amendment), s') →
      ((∃ stored payload, ((getArtifact nfc record.artifactId).run s').1 = .ok (stored, payload) ∧
          stored.invalidatesMachineAttestation = true ∧
          stored.parentArtifactId = some originalArtifactId) ↔
        ∀ row ∈ sys.state.artifacts,
          row.artifactId = artifactIdOf .scenarioSpec amendedSpec.ref amendedSpec.contentDigest →
            row.invalidatesMachineAttestation = true ∧
              row.parentArtifactId = some originalArtifactId) := by
  have hreadable := artifactsReadable_of_reachable h
  have hnodup := artifactIds_nodup_of_reachable h
  refine ⟨fun a contentDigest record idempotent s' hcontent hrun => ?_,
    fun originalArtifactId amendedSpec editorRef reason amendedAt record amendment s' hrun => ?_⟩
  · obtain ⟨row, cd, pd, createdAt, hcd, hcreated, rfl, hrowcd, hrowpd, hstored⟩ :=
      admitModel_storedFor hreadable hrun
    cases hcontent.symm.trans hcd
    have hid := (artifact?_some hstored.found).2
    rw [getArtifact_of_found hstored.readable hstored.found]
    refine Iff.trans ?_ (hstored.iff_before hnodup id)
    rw [← toRecord_eq_record_iff hstored.readable hid hrowcd hrowpd hcreated]
    cases row.toRecord with
    | error e => simp [Except.map]
    | ok stored => simp [Except.map]
  · obtain ⟨idempotent, s₁, hadmit, hsession⟩ := amendScenarioSpec_eq_ok hrun
    have hartifacts := amendSession_artifacts hsession
    obtain ⟨row, cd, pd, createdAt, hcd, -, hrecord, -, -, hstored⟩ :=
      admitModel_storedFor hreadable hadmit
    have hid : record.artifactId =
        artifactIdOf .scenarioSpec amendedSpec.ref amendedSpec.contentDigest := by
      rw [hrecord, ← validateContentDigest_scenarioSpec hcd]
      rfl
    rw [← hid]
    have hfound : s'.artifact? record.artifactId = some row := by
      rw [Store.artifact?, hartifacts]
      exact hstored.found
    rw [getArtifact_of_found hstored.readable hfound]
    refine Iff.trans ?_ (hstored.iff_before hnodup
      (P := fun r => r.invalidatesMachineAttestation = true ∧
        r.parentArtifactId = some originalArtifactId) fun hnew =>
          ⟨hnew.invalidatesMachineAttestation, hnew.parentArtifactId⟩)
    obtain ⟨t, stored, -, -, htoRecord⟩ := hstored.readable.toRecord_eq
    rw [htoRecord]
    simp [Except.map]

/-! ### A spec amended to itself -/

/-- The admission of an empty batch. -/
def emptyBatchAdmission : Admission :=
  { modelName := "RuntimeVerificationBatch", model := emptyRuntimeBatch.model,
    artifactType := .runtimeVerificationBatch, artifactRef := emptyRuntimeBatch.planBatchDigest,
    createdAt := "2026-07-29T00:00:00Z", actorRef := "actor-1" }

/-- The same admission with the instant in another zone, by another actor. -/
def emptyBatchAgain : Admission :=
  { emptyBatchAdmission with createdAt := "2026-07-29T02:00:00+02:00", actorRef := "actor-2" }

def batchAdmitted : Store := Store.after asciiNfc
  [.admitRuntimeBatch emptyRuntimeBatch "2026-07-29T00:00:00Z" "actor-1"]

theorem batchAdmitted_reachable : ∃ clients, Reachable asciiNfc ⟨batchAdmitted, clients⟩ :=
  reachable_after asciiNfc _

theorem batchAdmitted_evaluated :
    ((admitModel asciiNfc emptyBatchAgain).run batchAdmitted).1.map Prod.snd = .ok true ∧
      ∀ row ∈ batchAdmitted.artifacts, emptyBatchAgain.Describes row := by
  decide +kernel

def payAdmitted : Store := Store.after asciiNfc
  [.admitScenarioBatch payBatch "2026-07-28T00:00:00.000000Z" "actor-1"]

theorem payAdmitted_reachable : ∃ clients, Reachable asciiNfc ⟨payAdmitted, clients⟩ :=
  reachable_after asciiNfc _

/-- The spec with evidence added to it. -/
def amendedPaySpec : ScenarioSpec :=
  { paySpec with
    other := ⟨[("procedure_identity_ref", .str "APP.PAY"), ("action", .str "CALL APP.PAY"),
      ("preconditions", .list []), ("expected_effects", .list []),
      ("alternative_or_conditional_effects", .list []), ("evidence_refs", .list [.str "review-1"])],
      rfl⟩
    contentDigest := "sha256:1c89d6064739afe66b42e8afeaa708f03f31b7bbf7e4e65e2ac799b105424592" }

/-- An amendment of the admitted spec. -/
def amendPay (spec : ScenarioSpec) :
    Except StoreError (StoredArtifactRecord × AmendmentRecord) × Store :=
  (amendScenarioSpec asciiNfc paySpecId spec "editor-1" "review"
    "2026-07-30T00:00:00Z").run payAdmitted

theorem payAdmitted_evaluated :
    (amendPay amendedPaySpec).1.isOk = true ∧
    (∀ row ∈ payAdmitted.artifacts,
      row.artifactId ≠ artifactIdOf .scenarioSpec amendedPaySpec.ref amendedPaySpec.contentDigest) ∧
    ((amendPay paySpec).1.map fun r =>
      (r.1.artifactId, r.1.invalidatesMachineAttestation, r.1.parentArtifactId)) =
      .ok (paySpecId, true, some paySpecId) ∧
    ((getArtifact asciiNfc paySpecId).run (amendPay paySpec).2).1.map (fun found =>
      (found.1.invalidatesMachineAttestation, decide (found.1.parentArtifactId = some paySpecId))) =
      .ok (false, false) := by
  decide +kernel

/-- A batch admitted once more is returned as it was stored, and an amendment is stored as one. -/
theorem returned_stored_of_again :
    (∃ record s' payload,
      (admitModel asciiNfc emptyBatchAgain).run batchAdmitted = (.ok (record, true), s') ∧
        ((getArtifact asciiNfc record.artifactId).run s').1 = .ok (record, payload)) ∧
    ∃ record amendment s' stored payload, amendPay amendedPaySpec = (.ok (record, amendment), s') ∧
      ((getArtifact asciiNfc record.artifactId).run s').1 = .ok (stored, payload) ∧
      stored.invalidatesMachineAttestation = true ∧ stored.parentArtifactId = some paySpecId := by
  constructor
  · have hcontent : validateContentDigest asciiNfc emptyBatchAgain.modelName emptyBatchAgain.model =
        .ok emptyRuntimeBatch.contentDigest := by decide +kernel
    obtain ⟨clients, hreachable⟩ := batchAdmitted_reachable
    have hiff := (returned_stored_iff asciiNfc _ hreachable).1 emptyBatchAgain
      emptyRuntimeBatch.contentDigest
    dsimp only at hiff
    obtain ⟨hok, hdescribes⟩ := batchAdmitted_evaluated
    revert hok
    cases hrun : (admitModel asciiNfc emptyBatchAgain).run batchAdmitted with
    | mk result s' =>
      cases result with
      | error e => exact fun hok => nomatch hok
      | ok found =>
        obtain ⟨record, idempotent⟩ := found
        intro hok
        obtain rfl : idempotent = true := Except.ok.inj hok
        obtain ⟨payload, hget⟩ := (hiff record true s' hcontent hrun).2 fun row hrow _ =>
          hdescribes row hrow
        exact ⟨record, s', payload, rfl, hget⟩
  · obtain ⟨clients, hreachable⟩ := payAdmitted_reachable
    have hiff := (returned_stored_iff asciiNfc _ hreachable).2 paySpecId amendedPaySpec
      "editor-1" "review" "2026-07-30T00:00:00Z"
    dsimp only at hiff
    obtain ⟨hok, hnew, -⟩ := payAdmitted_evaluated
    revert hok
    cases hrun : amendPay amendedPaySpec with
    | mk result s' =>
      cases result with
      | error e => exact fun hok => nomatch hok
      | ok found =>
        intro _
        obtain ⟨stored, payload, hget, hmarked⟩ :=
          (hiff found.1 found.2 s' hrun).2 fun row hrow hid =>
          absurd hid (hnew row hrow)
        exact ⟨found.1, found.2, s', stored, payload, rfl, hget, hmarked⟩

/-- A spec amended to itself: the record that is returned says that the artifact invalidates the
machine attestation and that its parent is the original; the stored artifact says neither. -/
theorem selfAmendment_not_stored :
    (∃ clients, Reachable asciiNfc ⟨payAdmitted, clients⟩) ∧
    ((amendPay paySpec).1.map fun r =>
      (r.1.artifactId, r.1.invalidatesMachineAttestation, r.1.parentArtifactId)) =
      .ok (paySpecId, true, some paySpecId) ∧
    ((getArtifact asciiNfc paySpecId).run (amendPay paySpec).2).1.map (fun found =>
      (found.1.invalidatesMachineAttestation, decide (found.1.parentArtifactId = some paySpecId))) =
      .ok (false, false) :=
  ⟨payAdmitted_reachable, payAdmitted_evaluated.2.2⟩

end AtlasDb.Governance
