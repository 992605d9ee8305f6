import AtlasDb.Governance.History

/-!
# The transactions of an operation

Every operation is made of queries and of the six transactions that write. What each of them may be
given is said once (`TransactionsKeep`), so an invariant of the store needs six step lemmas and then
holds along every run, alone (`Operation.preserves`, `Client.run_preserves`) and between other
clients (`Interleaving.invariant`).
-/

namespace AtlasDb.Governance

open Core Core.Timestamp Lib

variable {nfc : Nfc}

/-! ## Timestamps -/

/-- The text is one `canonical_timestamp` accepts. -/
def Timestamped (text : String) : Prop := ∃ canonical, canonicalTimestamp text = some canonical

/-- The text is its own canonical spelling. -/
def CanonicalSpelling (text : String) : Prop := canonicalTimestamp text = some text

theorem CanonicalSpelling.timestamped {text : String} (h : CanonicalSpelling text) :
    Timestamped text :=
  ⟨text, h⟩

/-- Whatever spelling the text has, `canonical_timestamp` leaves it alone or refuses it. -/
def SpelledCanonically (text : String) : Prop :=
  ∀ canonical, canonicalTimestamp text = some canonical → canonical = text

instance (text : String) : Decidable (SpelledCanonically text) :=
  match h : canonicalTimestamp text with
  | none => isTrue fun canonical hc => by simp [h] at hc
  | some canonical =>
    if heq : canonical = text then
      isTrue fun c hc => by
        rw [← heq]
        exact (Option.some.inj (h.symm.trans hc)).symm
    else isFalse fun hall => heq (hall canonical h)

theorem SpelledCanonically.canonicalSpelling {text canonical : String}
    (h : SpelledCanonically text) (hc : canonicalTimestamp text = some canonical) :
    CanonicalSpelling text := by
  rw [CanonicalSpelling, hc, h canonical hc]

/-! ## Statements -/

theorem timestampField_eq_ok {model field value text : String} :
    timestampField model field value = .ok text ↔ canonicalTimestamp value = some text := by
  unfold timestampField
  cases canonicalTimestamp value <;> simp

variable {α : Type}

theorem keeps_select {I : Store → Prop} (query : Store → α) :
    Keeps I (select query) :=
  Keeps.of_readOnly fun s a s' h => by
    cases h
    rfl

theorem check_eq_ok {x : Except StoreError α} {s s' : Store} {a : α} :
    check x s = .ok (a, s') ↔ x = .ok a ∧ s' = s := by
  unfold check
  cases x with
  | error e => simp
  | ok b => simp [eq_comm]

theorem insertRow_eq_ok {constraints : Store → List (Bool × String)} {add : Store → Store}
    {s s' : Store} {u : Unit} (h : insertRow constraints add s = .ok (u, s')) :
    s' = add s ∧ ∀ c ∈ constraints s, c.1 = true := by
  unfold insertRow at h
  split at h
  · cases h
  · next hnone =>
      cases h
      refine ⟨rfl, fun c hc => ?_⟩
      simpa using List.find?_eq_none.mp hnone c hc

theorem keeps_insertRow {I : Store → Prop} {constraints : Store → List (Bool × String)}
    {add : Store → Store}
    (h : ∀ s, I s → (∀ c ∈ constraints s, c.1 = true) → I (add s)) :
    Keeps I (insertRow constraints add) := by
  intro s u s' hI hrun
  obtain ⟨rfl, hc⟩ := insertRow_eq_ok hrun
  exact h s hI hc

theorem hasArtifact_append {s : Store} {row : ArtifactRow} {artifactId : String}
    (h : s.hasArtifact artifactId = true) :
    ({ s with artifacts := s.artifacts ++ [row] } : Store).hasArtifact artifactId = true := by
  unfold Store.hasArtifact at *
  rw [List.any_append, h]
  rfl

theorem liftJson_eq_ok {x : Except CanonicalJsonError α} {a : α} :
    liftJson x = .ok a ↔ x = .ok a := by
  cases x <;> simp [liftJson]

/-! ## Appending an event -/

/-- What a successful `_append_event` did: one row was added, with the digest of the payload as
given and the timestamp as validated. -/
theorem appendEvent_eq_ok {eventType : GovernanceEventType}
    {artifactId actorRef eventAt payloadDigest : String} {s s' : Store}
    {event : GovernanceAuditEvent}
    (h : appendEvent nfc eventType artifactId actorRef eventAt payloadDigest s = .ok (event, s')) :
    ∃ contentDigest canonical,
      digestOf nfc (nextEvent s.eventsInOrder.getLast? eventType artifactId actorRef eventAt
        payloadDigest contentDigest).payload = .ok contentDigest ∧
      canonicalTimestamp eventAt = some canonical ∧
      s' = { s with auditEvents := s.auditEvents ++ [(nextEvent s.eventsInOrder.getLast? eventType
        artifactId actorRef canonical payloadDigest contentDigest).toRow] } := by
  unfold appendEvent at h
  obtain ⟨previous, s₁, hsel, h₁⟩ := Txn.bind_eq_ok.mp h
  cases hsel
  obtain ⟨contentDigest, s₂, hdigest, h₂⟩ := Txn.bind_eq_ok.mp h₁
  obtain ⟨hpayload, rfl⟩ := check_eq_ok.mp hdigest
  obtain ⟨validated, s₃, hvalid, h₃⟩ := Txn.bind_eq_ok.mp h₂
  obtain ⟨hevent, rfl⟩ := check_eq_ok.mp hvalid
  obtain ⟨u, s₄, hinsert, h₄⟩ := Txn.bind_eq_ok.mp h₃
  obtain ⟨rfl, -⟩ := insertRow_eq_ok hinsert
  simp only [GovernanceAuditEvent.validated, Except.bind_eq_ok, timestampField_eq_ok] at hevent
  obtain ⟨canonical, hcanonical, hevent⟩ := hevent
  cases hevent
  cases h₄
  exact ⟨contentDigest, canonical, hpayload, hcanonical, rfl⟩

/-! ## What the transactions are given -/

/-- The six transactions that write keep `I`, given what the operations hand to them; `Spelled` is
what is known of the `created_at` of an admission. -/
structure TransactionsKeep (nfc : Nfc) (I : Store → Prop) (Spelled : String → Prop) : Prop where
  storeArtifact : ∀ {a : Admission} {record : StoredArtifactRecord} {payload : Json},
    Spelled a.createdAt → Timestamped a.createdAt →
    digestOf nfc payload.toPy = .ok record.payloadDigest →
    Keeps I (storeArtifact nfc a record payload)
  storeBaseline : ∀ {actorRef : String} {registration : BaselineRegistration},
    registration.validated = .ok registration → CanonicalSpelling registration.effectiveFrom →
    registration.effectiveTo = none → Keeps I (storeBaseline nfc actorRef registration)
  compareSession : ∀ {actorRef : String} {r result : BaselineComparisonResult},
    r.validated = .ok result → Keeps I (compareSession nfc actorRef result)
  amendSession : ∀ {amendment : AmendmentRecord}, CanonicalSpelling amendment.amendedAt →
    Keeps I (amendSession nfc amendment)
  storePlatformDecision : ∀ {envelope : PlatformDecisionEnvelope},
    envelope.validated = .ok envelope → CanonicalSpelling envelope.effectiveAt →
    Keeps I (storePlatformDecision nfc envelope)
  storeCertification : ∀ {envelope : CertificationEnvelope},
    envelope.validated = .ok envelope → CanonicalSpelling envelope.validFrom →
    Keeps I (storeCertification nfc envelope)

section Operations

variable {I : Store → Prop} {Spelled : String → Prop}

theorem preserves_select (query : Store → α) :
    (Client.transaction (select query) : StoreClient α).Preserves I :=
  Client.Preserves.transaction (keeps_select query)

theorem preserves_getArtifact (artifactId : String) : (getArtifact nfc artifactId).Preserves I :=
  (preserves_select _).bind fun _ => Client.Preserves.ofExcept _

variable (keep : TransactionsKeep nfc I Spelled)
include keep

theorem preserves_admitModel {a : Admission} (ha : Spelled a.createdAt) :
    (admitModel nfc a).Preserves I := by
  refine Client.Ensures.ofExcept_bind fun contentDigest _ => ?_
  refine Client.Ensures.ofExcept_bind fun payload hpayload => ?_
  refine Client.Ensures.ofExcept_bind fun payloadDigest hdigest => ?_
  refine Client.Ensures.ofExcept_bind fun record hrecord => ?_
  simp only [StoredArtifactRecord.validated, Except.bind_eq_ok, timestampField_eq_ok] at hrecord
  obtain ⟨canonical, hcanonical, hrecord⟩ := hrecord
  cases hrecord
  refine (preserves_select _).bind fun existing => ?_
  cases existing with
  | some row =>
    show Client.Ensures _ _ (if _ then _ else _)
    split
    · trivial
    · trivial
  | none =>
    refine Client.Preserves.transaction (keep.storeArtifact ha ⟨canonical, hcanonical⟩ ?_)
    -- the stored document is the one the digest was taken of
    show digestOf nfc payload.sortKeys.toPy = .ok payloadDigest
    rw [← hdigest, digestOf, digestOf,
      canonicalDigest_readBack a.model.plain_dump (liftJson_eq_ok.mp hpayload)]

theorem preserves_admitEach {admission : α → StoreClient Admission}
    (h : ∀ item, (admission item).Ensures I fun a => Spelled a.createdAt)
    (items : List α) (result : AdmissionResult) :
    (admitEach nfc admission items result).Preserves I := by
  induction items generalizing result with
  | nil => trivial
  | cons item items ih =>
    refine (h item).bind fun a ha => ?_
    exact (preserves_admitModel keep ha).bind fun _ => ih _

theorem preserves_admitEach_pure {admission : α → Admission}
    (h : ∀ item, Spelled (admission item).createdAt) (items : List α) (result : AdmissionResult) :
    (admitEach nfc (fun item => pure (admission item)) items result).Preserves I :=
  preserves_admitEach keep h items result

theorem preserves_admitBatchModel {a : Admission} (ha : Spelled a.createdAt) :
    (admitBatchModel nfc a).Preserves I :=
  (preserves_admitModel keep ha).bind fun _ => trivial

theorem preserves_admitScenarioBatch (batch : ScenarioSpecBatchResult) {createdAt : String}
    (actorRef : String) (h : Spelled createdAt) :
    (admitScenarioBatch nfc batch createdAt actorRef).Preserves I := by
  refine (preserves_admitBatchModel keep ?_).bind fun _ => ?_
  · exact h
  refine (preserves_admitEach_pure keep ?_ _ _).bind fun _ => ?_
  · exact fun _ => h
  refine (preserves_admitEach_pure keep ?_ _ _).bind fun _ => ?_
  · exact fun _ => h
  refine (preserves_admitEach_pure keep ?_ _ _).bind fun _ => ?_
  · exact fun _ => h
  refine (preserves_admitEach_pure keep ?_ _ _).bind fun _ => ?_
  · exact fun _ => h
  refine preserves_admitEach_pure keep ?_ _ _
  exact fun _ => h

omit keep in
theorem ensures_dependentAdmission {modelName : String} {model : SpecDependent → ArtifactModel}
    {artifactType : GovernanceArtifactType} {parent : StoredArtifactRecord}
    {createdAt actorRef : String} (h : Spelled createdAt) (item : SpecDependent) :
    (dependentAdmission nfc modelName model artifactType parent createdAt actorRef item).Ensures
      I fun a => Spelled a.createdAt := by
  have hidentity : (scenarioIdentity nfc item.scenarioSpecRef).Preserves I := by
    refine (preserves_select _).bind fun row => ?_
    cases row with
    | none => trivial
    | some row => exact (preserves_getArtifact _).bind fun _ => trivial
  exact hidentity.bind fun _ => h

theorem preserves_admitBddBatch (batch : BddCompilationBatch) {createdAt : String}
    (actorRef : String) (h : Spelled createdAt) :
    (admitBddBatch nfc batch createdAt actorRef).Preserves I := by
  refine (preserves_admitBatchModel keep ?_).bind fun _ => ?_
  · exact h
  refine (preserves_admitEach_pure keep ?_ _ _).bind fun _ => ?_
  · exact fun _ => h
  refine (preserves_admitEach_pure keep ?_ _ _).bind fun _ => ?_
  · exact fun _ => h
  exact preserves_admitEach keep (ensures_dependentAdmission h) _ _

theorem preserves_admitRuntimeBatch (batch : RuntimeVerificationBatch) {createdAt : String}
    (actorRef : String) (h : Spelled createdAt) :
    (admitRuntimeBatch nfc batch createdAt actorRef).Preserves I := by
  refine (preserves_admitBatchModel keep ?_).bind fun _ => ?_
  · exact h
  refine (preserves_admitEach_pure keep ?_ _ _).bind fun _ => ?_
  · exact fun _ => h
  exact preserves_admitEach keep (ensures_dependentAdmission h) _ _

omit keep in
/-- A registration that passed its validators passes them again, its start is spelled canonically,
and it has no end if it was given none. -/
theorem BaselineRegistration.validated_again {r r' : BaselineRegistration}
    (h : r.validated = .ok r') (hto : r.effectiveTo = none) :
    r'.validated = .ok r' ∧ CanonicalSpelling r'.effectiveFrom ∧ r'.effectiveTo = none := by
  simp only [BaselineRegistration.validated, hto, optionalTimestampField, Except.bind_eq_ok,
    timestampField_eq_ok] at h
  obtain ⟨start, hstart, last, hlast, h⟩ := h
  cases hlast
  cases h
  have hidem := canonicalTimestamp_idem hstart
  refine ⟨?_, hidem, rfl⟩
  simp only [BaselineRegistration.validated, optionalTimestampField, Except.bind_eq_ok,
    timestampField_eq_ok]
  exact ⟨start, hidem, none, rfl, rfl⟩

omit keep in
theorem preserves_unlessStored {query : Store → Option String}
    {keyValue contentDigest : String} {known write : StoreClient α} (hknown : known.Preserves I)
    (hwrite : write.Preserves I) :
    Client.Preserves I (do
      let stored ← Client.transaction (select query)
      if ← Client.ofExcept (ensureIdempotentBinding keyValue contentDigest stored) then known
      else write) := by
  refine (preserves_select _).bind fun stored => ?_
  refine (Client.Preserves.ofExcept _).bind fun idempotent => ?_
  split
  · exact hknown
  · exact hwrite

theorem preserves_registerBaseline (artifactId authorityRef effectiveFrom actorRef : String) :
    (registerBaseline nfc artifactId authorityRef effectiveFrom actorRef).Preserves I := by
  refine (preserves_getArtifact _).bind fun found => ?_
  dsimp only
  split
  · split
    · trivial
    · refine Client.Ensures.ofExcept_bind fun contentDigest _ => ?_
      refine Client.Ensures.ofExcept_bind fun registration hvalid => ?_
      obtain ⟨hagain, hfrom, hto⟩ := BaselineRegistration.validated_again hvalid rfl
      exact preserves_unlessStored trivial
        (Client.Preserves.transaction (keep.storeBaseline hagain hfrom hto))
  · trivial

omit keep in
theorem preserves_baselineVerdict (candidateSignature : String) :
    ∀ baseline : Option BaselineRegistration,
      (baselineVerdict nfc candidateSignature baseline).Preserves I
  | none => trivial
  | some _ =>
    (preserves_getArtifact _).bind fun _ => (Client.Preserves.ofExcept _).bind fun _ => trivial

theorem preserves_compareToBaseline (candidateArtifactId comparedAt actorRef : String) :
    (compareToBaseline nfc candidateArtifactId comparedAt actorRef).Preserves I := by
  refine (preserves_getArtifact _).bind fun found => ?_
  dsimp only
  split
  · split
    · trivial
    · refine (preserves_select _).bind fun baseline => ?_
      refine (Client.Preserves.ofExcept _).bind fun candidateSignature => ?_
      refine (preserves_baselineVerdict _ baseline).bind fun verdict => ?_
      refine (Client.Preserves.ofExcept _).bind fun evidenceRefs => ?_
      refine (Client.Preserves.ofExcept _).bind fun contentDigest => ?_
      refine (Client.Preserves.ofExcept _).bind fun sourceSymbolId => ?_
      refine (Client.Preserves.ofExcept _).bind fun symbolLineageId => ?_
      refine (Client.Preserves.ofExcept _).bind fun artifactRevisionId => ?_
      refine Client.Ensures.ofExcept_bind fun result hresult => ?_
      exact Client.Preserves.transaction (keep.compareSession hresult)
  · trivial

theorem preserves_amendScenarioSpec (originalArtifactId : String) (amendedSpec : ScenarioSpec)
    (editorRef reason : String) {amendedAt : String} (h : Spelled amendedAt) :
    (amendScenarioSpec nfc originalArtifactId amendedSpec editorRef reason amendedAt).Preserves
      I := by
  refine (preserves_getArtifact _).bind fun found => ?_
  dsimp only
  iterate 4
    split
    · trivial
  refine (preserves_admitModel keep ?_).bind fun admitted => ?_
  · exact h
  refine (Client.Preserves.ofExcept _).bind fun contentDigest => ?_
  refine Client.Ensures.ofExcept_bind fun amendment hamendment => ?_
  simp only [AmendmentRecord.validated, Except.bind_eq_ok, timestampField_eq_ok] at hamendment
  obtain ⟨at', hat, hamendment⟩ := hamendment
  cases hamendment
  refine (Client.Preserves.transaction (keep.amendSession ?_)).bind fun _ => trivial
  exact canonicalTimestamp_idem hat

theorem preserves_bindPlatformDecision (envelope : PlatformDecisionEnvelope) :
    (Client.ofExcept envelope.validated >>= bindPlatformDecision nfc).Preserves I := by
  refine Client.Ensures.ofExcept_bind fun e he => ?_
  simp only [PlatformDecisionEnvelope.validated, Except.bind_eq_ok, timestampField_eq_ok] at he
  obtain ⟨at', hat, he⟩ := he
  cases he
  have hidem : CanonicalSpelling at' := canonicalTimestamp_idem hat
  refine (Client.Preserves.ofExcept _).bind fun expected => ?_
  refine (Client.Preserves.ofExcept _).bind fun _ => ?_
  refine (preserves_getArtifact _).bind fun found => ?_
  dsimp only
  split
  · trivial
  · refine preserves_unlessStored trivial
      (Client.Preserves.transaction (keep.storePlatformDecision ?_ hidem))
    simp only [PlatformDecisionEnvelope.validated, Except.bind_eq_ok, timestampField_eq_ok]
    exact ⟨at', hidem, rfl⟩

omit keep in
theorem optionalTimestampField_again {model field : String} {value text : Option String}
    (h : optionalTimestampField model field value = .ok text) :
    optionalTimestampField model field text = .ok text := by
  cases value with
  | none =>
    cases h
    rfl
  | some value =>
    simp only [optionalTimestampField, Except.bind_eq_ok, timestampField_eq_ok] at h
    obtain ⟨canonical, hcanonical, h⟩ := h
    cases h
    simp only [optionalTimestampField, Except.bind_eq_ok, timestampField_eq_ok]
    exact ⟨canonical, canonicalTimestamp_idem hcanonical, rfl⟩

theorem preserves_bindCertification (envelope : CertificationEnvelope) :
    (Client.ofExcept envelope.validated >>= bindCertification nfc).Preserves I := by
  refine Client.Ensures.ofExcept_bind fun e he => ?_
  simp only [CertificationEnvelope.validated, Except.bind_eq_ok, timestampField_eq_ok] at he
  obtain ⟨start, hstart, last, hlast, he⟩ := he
  cases he
  have hidem : CanonicalSpelling start := canonicalTimestamp_idem hstart
  refine (Client.Preserves.ofExcept _).bind fun expected => ?_
  refine (Client.Preserves.ofExcept _).bind fun _ => ?_
  refine (preserves_getArtifact _).bind fun found => ?_
  dsimp only
  split
  · trivial
  · refine preserves_unlessStored trivial
      (Client.Preserves.transaction (keep.storeCertification ?_ hidem))
    simp only [CertificationEnvelope.validated, Except.bind_eq_ok, timestampField_eq_ok]
    exact ⟨start, hidem, last, optionalTimestampField_again hlast, rfl⟩

end Operations

/-! ## Operations as clients -/

/-- An operation with its result forgotten. -/
def Operation.client (nfc : Nfc) : Operation → StoreClient Unit
  | admitScenarioBatch batch createdAt actorRef =>
    discard (Governance.admitScenarioBatch nfc batch createdAt actorRef)
  | admitBddBatch batch createdAt actorRef =>
    discard (Governance.admitBddBatch nfc batch createdAt actorRef)
  | admitRuntimeBatch batch createdAt actorRef =>
    discard (Governance.admitRuntimeBatch nfc batch createdAt actorRef)
  | registerBaseline artifactId authorityRef effectiveFrom actorRef =>
    discard (Governance.registerBaseline nfc artifactId authorityRef effectiveFrom actorRef)
  | compareToBaseline candidateArtifactId comparedAt actorRef =>
    discard (Governance.compareToBaseline nfc candidateArtifactId comparedAt actorRef)
  | amendScenarioSpec originalArtifactId amendedSpec editorRef reason amendedAt =>
    discard (Governance.amendScenarioSpec nfc originalArtifactId amendedSpec editorRef reason
      amendedAt)
  | bindPlatformDecision envelope =>
    Client.ofExcept envelope.validated >>= Governance.bindPlatformDecision nfc
  | bindCertification envelope =>
    Client.ofExcept envelope.validated >>= Governance.bindCertification nfc
where
  discard {α : Type} (c : StoreClient α) : StoreClient Unit := c >>= fun _ => pure ()

/-- What is known of the timestamps handed to `_admit_model`. The other operations normalise theirs
before they use them. -/
def Operation.Admits (Spelled : String → Prop) : Operation → Prop
  | admitScenarioBatch _ createdAt _ => Spelled createdAt
  | admitBddBatch _ createdAt _ => Spelled createdAt
  | admitRuntimeBatch _ createdAt _ => Spelled createdAt
  | amendScenarioSpec _ _ _ _ amendedAt => Spelled amendedAt
  | registerBaseline .. | compareToBaseline .. | bindPlatformDecision _ | bindCertification _ =>
    True

theorem preserves_discard {I : Store → Prop} {c : StoreClient α} (h : c.Preserves I) :
    (Operation.client.discard c).Preserves I :=
  h.bind fun _ => trivial

theorem Operation.preserves {I : Store → Prop} {Spelled : String → Prop}
    (keep : TransactionsKeep nfc I Spelled) (op : Operation) (hop : op.Admits Spelled) :
    (op.client nfc).Preserves I := by
  cases op with
  | admitScenarioBatch batch createdAt actorRef =>
    exact preserves_discard (preserves_admitScenarioBatch keep batch actorRef hop)
  | admitBddBatch batch createdAt actorRef =>
    exact preserves_discard (preserves_admitBddBatch keep batch actorRef hop)
  | admitRuntimeBatch batch createdAt actorRef =>
    exact preserves_discard (preserves_admitRuntimeBatch keep batch actorRef hop)
  | registerBaseline artifactId authorityRef effectiveFrom actorRef =>
    exact preserves_discard (preserves_registerBaseline keep _ _ _ _)
  | compareToBaseline candidateArtifactId comparedAt actorRef =>
    exact preserves_discard (preserves_compareToBaseline keep _ _ _)
  | amendScenarioSpec originalArtifactId amendedSpec editorRef reason amendedAt =>
    exact preserves_discard (preserves_amendScenarioSpec keep _ _ _ _ hop)
  | bindPlatformDecision envelope => exact preserves_bindPlatformDecision keep envelope
  | bindCertification envelope => exact preserves_bindCertification keep envelope

theorem run_discard (c : StoreClient α) (s : Store) :
    ((Operation.client.discard c).run s).2 = (c.run s).2 := by
  unfold Operation.client.discard
  rw [Client.run_bind]
  cases c.run s with
  | mk result s' => cases result <;> rfl

theorem Operation.perform_eq (op : Operation) (s : Store) :
    op.perform nfc s = ((op.client nfc).run s).2 := by
  cases op with
  | bindPlatformDecision envelope => rfl
  | bindCertification envelope => rfl
  | admitScenarioBatch batch createdAt actorRef => exact (run_discard _ s).symm
  | admitBddBatch batch createdAt actorRef => exact (run_discard _ s).symm
  | admitRuntimeBatch batch createdAt actorRef => exact (run_discard _ s).symm
  | registerBaseline artifactId authorityRef effectiveFrom actorRef => exact (run_discard _ s).symm
  | compareToBaseline candidateArtifactId comparedAt actorRef => exact (run_discard _ s).symm
  | amendScenarioSpec originalArtifactId amendedSpec editorRef reason amendedAt =>
    exact (run_discard _ s).symm

end AtlasDb.Governance
