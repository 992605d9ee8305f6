import AtlasDb.Governance.Transactions

/-!
# The audit chain

The invariant of the store is `Store.Wf`: every stored row can be read back by its model, references
point to stored artifacts, the events are in sequence order, and the chain of their digests is
linked. Each session keeps it, provided that the timestamp handed to `_append_event` is already in
canonical spelling: the digest is taken of the argument, but the column gets the text the model
made of it. All callers but `_admit_model` pass a validated timestamp; `_admit_model` passes its
`created_at` on as it came.
-/

namespace AtlasDb.Governance

open Core Core.Timestamp Lib

variable {nfc : Nfc}

/-! ## The invariant -/

/-- `get_artifact` accepts the row. -/
structure ArtifactRow.Readable (nfc : Nfc) (row : ArtifactRow) : Prop where
  artifactType : ∃ t, GovernanceArtifactType.ofValue row.artifactType = some t
  authorityScope : row.authorityScope = localNonAuthoritativeEvidence
  createdAt : Timestamped row.createdAt
  payload : digestOf nfc row.payloadJson.toPy = .ok row.payloadDigest

structure ComparisonRow.Readable (row : ComparisonRow) : Prop where
  status : ∃ t, BaselineComparisonStatus.ofValue row.status = some t
  classification : row.classificationCandidate = none ∨
    row.classificationCandidate = some baselineBehaviorViolationCandidate
  comparedAt : Timestamped row.comparedAt

/-- The chain of the stored events verifies. -/
def ChainLinked (nfc : Nfc) (rows : List AuditRow) : Prop :=
  HashChain.Linked AuditRow.contentDigest (checkEvent nfc) none rows

structure Store.Wf (nfc : Nfc) (s : Store) : Prop where
  artifacts : ∀ row ∈ s.artifacts, row.Readable nfc
  baselines : ∀ row ∈ s.baselines, ∃ r, row.validated = .ok r
  comparisons : ∀ row ∈ s.comparisons,
    row.Readable ∧ s.hasArtifact row.candidateArtifactId = true
  amendments : ∀ row ∈ s.amendments,
    Timestamped row.amendedAt ∧ s.hasArtifact row.amendedArtifactId = true
  platformDecisions : ∀ row ∈ s.platformDecisions, ∃ r, row.validated = .ok r
  certifications : ∀ row ∈ s.certifications, ∃ r, row.validated = .ok r
  events : ∀ row ∈ s.auditEvents, ∃ e, row.toEvent = .ok e
  ordered : s.auditEvents.Pairwise fun a b => a.sequence ≤ b.sequence
  linked : ChainLinked nfc s.auditEvents

theorem Store.empty_wf : Store.empty.Wf nfc := by
  constructor <;> simp [Store.empty, ChainLinked, HashChain.Linked]

theorem Store.Wf.eventsInOrder {s : Store} (h : s.Wf nfc) : s.eventsInOrder = s.auditEvents :=
  h.ordered.insertionSort_eq

/-! ## Statements -/

theorem keeps_insertArtifact {row : ArtifactRow} (hrow : row.Readable nfc) :
    Keeps (Store.Wf nfc) (insertArtifact row) := by
  refine keeps_insertRow fun s hs _ =>
    { hs with artifacts := ?_, comparisons := ?_, amendments := ?_ }
  · intro r hr
    rcases List.mem_append.mp hr with hr | hr
    · exact hs.artifacts r hr
    · rw [List.mem_singleton.mp hr]
      exact hrow
  · exact fun r hr => ⟨(hs.comparisons r hr).1, hasArtifact_append (hs.comparisons r hr).2⟩
  · exact fun r hr => ⟨(hs.amendments r hr).1, hasArtifact_append (hs.amendments r hr).2⟩

theorem keeps_insertBaseline {row r : BaselineRegistration} (hrow : row.validated = .ok r) :
    Keeps (Store.Wf nfc) (insertBaseline row) := by
  refine keeps_insertRow fun s hs _ => { hs with baselines := ?_ }
  intro b hb
  rcases List.mem_append.mp hb with hb | hb
  · exact hs.baselines b hb
  · exact ⟨r, by rw [List.mem_singleton.mp hb, hrow]⟩

theorem keeps_insertOrIgnoreComparison {row : ComparisonRow} (hrow : row.Readable) :
    Keeps (Store.Wf nfc) (insertOrIgnoreComparison row) := by
  refine keeps_insertRow fun s hs hc => ?_
  split
  · exact hs
  · next hnew =>
      refine { hs with comparisons := ?_ }
      intro r hr
      rcases List.mem_append.mp hr with hr | hr
      · exact hs.comparisons r hr
      · rw [List.mem_singleton.mp hr]
        refine ⟨hrow, ?_⟩
        simp only [List.mem_singleton, forall_eq, hnew, Bool.false_or, Bool.and_eq_true] at hc
        exact hc.1

theorem keeps_insertAmendment {row : AmendmentRow} (hrow : Timestamped row.amendedAt) :
    Keeps (Store.Wf nfc) (insertAmendment row) := by
  refine keeps_insertRow fun s hs hc => { hs with amendments := ?_ }
  intro r hr
  rcases List.mem_append.mp hr with hr | hr
  · exact hs.amendments r hr
  · rw [List.mem_singleton.mp hr]
    have href := hc _ (List.mem_cons_of_mem _ List.mem_cons_self)
    simp only [Bool.and_eq_true] at href
    exact ⟨hrow, href.2⟩

theorem keeps_insertPlatformDecision {row r : PlatformDecisionEnvelope}
    (hrow : row.validated = .ok r) : Keeps (Store.Wf nfc) (insertPlatformDecision row) := by
  refine keeps_insertRow fun s hs _ => { hs with platformDecisions := ?_ }
  intro b hb
  rcases List.mem_append.mp hb with hb | hb
  · exact hs.platformDecisions b hb
  · exact ⟨r, by rw [List.mem_singleton.mp hb, hrow]⟩

theorem keeps_insertCertification {row r : CertificationEnvelope}
    (hrow : row.validated = .ok r) : Keeps (Store.Wf nfc) (insertCertification row) := by
  refine keeps_insertRow fun s hs _ => { hs with certifications := ?_ }
  intro b hb
  rcases List.mem_append.mp hb with hb | hb
  · exact hs.certifications b hb
  · exact ⟨r, by rw [List.mem_singleton.mp hb, hrow]⟩

/-! ## Appending an event -/

theorem checkEvent_toRow {event : GovernanceAuditEvent} {previous : Option String}
    (hprev : event.previousEventDigest = previous)
    (hdigest : digestOf nfc event.payload = .ok event.contentDigest) :
    checkEvent nfc previous event.toRow = .ok true := by
  have hevent : event.toRow.event event.eventType = event := rfl
  have htype : GovernanceEventType.ofValue event.toRow.eventType = some event.eventType :=
    GovernanceEventType.ofValue_value _
  have hprev' : event.toRow.previousEventDigest = previous := hprev
  simp only [checkEvent, htype, hevent, hprev', hdigest, ne_eq, not_true, if_false, bind,
    Except.bind]
  simp [GovernanceAuditEvent.toRow]

theorem toEvent_toRow {event : GovernanceAuditEvent} (h : Timestamped event.eventAt) :
    ∃ e, event.toRow.toEvent = .ok e := by
  obtain ⟨canonical, hcanonical⟩ := h
  have htype : GovernanceEventType.ofValue event.toRow.eventType = some event.eventType :=
    GovernanceEventType.ofValue_value _
  refine ⟨{ event with eventAt := canonical }, ?_⟩
  simp only [AuditRow.toEvent, htype, GovernanceAuditEvent.validated, Except.bind_eq_ok]
  exact ⟨canonical, timestampField_eq_ok.mpr hcanonical, rfl⟩

theorem lastSequence_le {rows : List AuditRow} {last : AuditRow}
    (hordered : rows.Pairwise fun a b => a.sequence ≤ b.sequence)
    (hlast : rows.getLast? = some last) :
    ∀ row ∈ rows, row.sequence ≤ last.sequence := by
  obtain ⟨init, rfl⟩ := List.getLast?_eq_some_iff.mp hlast
  intro row hrow
  rcases List.mem_append.mp hrow with hrow | hrow
  · exact (List.pairwise_append.mp hordered).2.2 row hrow last List.mem_cons_self
  · rw [List.mem_singleton.mp hrow]

/-- **Step lemma.** With a timestamp in canonical spelling the appended event is the one its digest
was taken of, so the chain stays linked. -/
theorem keeps_appendEvent {eventType : GovernanceEventType}
    {artifactId actorRef eventAt payloadDigest : String} (hat : CanonicalSpelling eventAt) :
    Keeps (Store.Wf nfc) (appendEvent nfc eventType artifactId actorRef eventAt payloadDigest) := by
  intro s event s' hs hrun
  obtain ⟨contentDigest, canonical, hdigest, hcanonical, rfl⟩ := appendEvent_eq_ok hrun
  obtain rfl : eventAt = canonical := Option.some.inj (hat.symm.trans hcanonical)
  rw [hs.eventsInOrder] at hdigest ⊢
  refine { hs with events := ?_, ordered := ?_, linked := ?_ }
  · intro row hrow
    rcases List.mem_append.mp hrow with hrow | hrow
    · exact hs.events row hrow
    · rw [List.mem_singleton.mp hrow]
      exact toEvent_toRow hat.timestamped
  · rw [List.pairwise_append]
    refine ⟨hs.ordered, by simp, fun a ha b hb => ?_⟩
    rw [List.mem_singleton.mp hb]
    cases hlast : s.auditEvents.getLast? with
    | none =>
      rw [List.getLast?_eq_none_iff.mp hlast] at ha
      cases ha
    | some last => exact Nat.le_succ_of_le (lastSequence_le hs.ordered hlast a ha)
  · refine HashChain.linked_append_singleton hs.linked (checkEvent_toRow ?_ hdigest)
    rw [HashChain.lastDigest_eq_getLast?]
    rfl

/-! ## Transactions -/

theorem keeps_storeArtifact {a : Admission} {record : StoredArtifactRecord} {payload : Json}
    (hat : CanonicalSpelling a.createdAt)
    (hpayload : digestOf nfc payload.toPy = .ok record.payloadDigest) :
    Keeps (Store.Wf nfc) (storeArtifact nfc a record payload) := by
  refine (keeps_insertArtifact ?_).bind fun _ =>
    (keeps_appendEvent hat).bind fun _ => Keeps.pure _
  exact
    { artifactType := ⟨a.artifactType, GovernanceArtifactType.ofValue_value _⟩
      authorityScope := rfl
      createdAt := hat.timestamped
      payload := hpayload }

theorem keeps_compareSession {actorRef : String} {r result : BaselineComparisonResult}
    (h : r.validated = .ok result) :
    Keeps (Store.Wf nfc) (compareSession nfc actorRef result) := by
  unfold BaselineComparisonResult.validated at h
  split at h
  · next hclass =>
      simp only [Except.bind_eq_ok, timestampField_eq_ok] at h
      obtain ⟨at', hat, h⟩ := h
      cases h
      have hidem : CanonicalSpelling at' := canonicalTimestamp_idem hat
      refine (keeps_insertOrIgnoreComparison ?_).bind fun _ =>
        (keeps_appendEvent hidem).bind fun _ => Keeps.pure _
      exact
        { status := ⟨r.status, BaselineComparisonStatus.ofValue_value _⟩
          classification := hclass
          comparedAt := hidem.timestamped }
  · cases h

theorem keeps_amendSession {amendment : AmendmentRecord}
    (h : CanonicalSpelling amendment.amendedAt) :
    Keeps (Store.Wf nfc) (amendSession nfc amendment) := by
  refine (keeps_insertAmendment ?_).bind fun _ =>
    (keeps_appendEvent h).bind fun _ => Keeps.pure _
  exact h.timestamped

theorem transactionsKeep_wf : TransactionsKeep nfc (Store.Wf nfc) SpelledCanonically where
  storeArtifact hspelled hat hpayload :=
    keeps_storeArtifact (hspelled.canonicalSpelling hat.choose_spec) hpayload
  storeBaseline hvalid hfrom _ :=
    (keeps_insertBaseline hvalid).bind fun _ => (keeps_appendEvent hfrom).bind fun _ => Keeps.pure _
  compareSession := keeps_compareSession
  amendSession := keeps_amendSession
  storePlatformDecision hvalid hat :=
    (keeps_insertPlatformDecision hvalid).bind fun _ =>
      (keeps_appendEvent hat).bind fun _ => Keeps.pure _
  storeCertification hvalid hfrom :=
    (keeps_insertCertification hvalid).bind fun _ =>
      (keeps_appendEvent hfrom).bind fun _ => Keeps.pure _

/-! ## Runs -/

/-- The timestamps the operation hands to `_admit_model` are spelled canonically. -/
def Operation.SpelledCanonically (op : Operation) : Prop := op.Admits Governance.SpelledCanonically

theorem Operation.perform_wf (op : Operation) (s : Store) (hop : op.SpelledCanonically)
    (hs : s.Wf nfc) : (op.perform nfc s).Wf nfc := by
  rw [op.perform_eq]
  exact Client.run_preserves (op.preserves transactionsKeep_wf hop) hs

/-- **Run lemma.** -/
theorem Store.after_wf {ops : List Operation} (hops : ∀ op ∈ ops, op.SpelledCanonically) :
    (Store.after nfc ops).Wf nfc :=
  runAll_preserves Operation.perform_wf ops hops Store.empty_wf

/-! ## `history` on a well-formed store -/

theorem ArtifactRow.Readable.toRecord {row : ArtifactRow} (h : row.Readable nfc) :
    ∃ record, row.toRecord = .ok record := by
  obtain ⟨t, ht⟩ := h.artifactType
  obtain ⟨canonical, hcanonical⟩ := h.createdAt
  simp only [ArtifactRow.toRecord, ht, h.authorityScope, ne_eq, not_true, if_false,
    StoredArtifactRecord.validated, timestampField, hcanonical, bind, Except.bind]
  exact ⟨_, rfl⟩

theorem reads_getArtifact {s : Store} (hs : s.Wf nfc) {artifactId : String}
    (h : s.hasArtifact artifactId = true) :
    (getArtifact nfc artifactId).Reads s fun _ => True := by
  obtain ⟨row, hmem, hid⟩ := List.any_eq_true.mp h
  cases hfind : s.artifacts.find? fun row => row.artifactId = artifactId with
  | none => exact absurd hid (List.find?_eq_none.mp hfind row hmem)
  | some found =>
    have hread := hs.artifacts found (List.mem_of_find?_eq_some hfind)
    obtain ⟨record, hrecord⟩ := hread.toRecord
    have hchecked : readArtifact nfc artifactId (some found) = .ok (record, found.payloadJson) := by
      simp [readArtifact, hrecord, hread.payload, bind, Except.bind]
    refine Client.Reads.bind (Q := fun row => row = some found) ⟨some found, ?_, rfl⟩ ?_
    · simp only [Client.transaction, Client.run, select, hfind]
    · rintro _ rfl
      exact Client.Reads.ofExcept hchecked trivial

theorem reads_withIdentity {ρ α : Type} {s : Store} (hs : s.Wf nfc) {artifactId : ρ → String}
    {build : ρ → StoredArtifactRecord → Except StoreError α} (rows : List ρ)
    (hid : ∀ row ∈ rows, s.hasArtifact (artifactId row) = true)
    (hbuild : ∀ row ∈ rows, ∀ identity, ∃ value, build row identity = .ok value) :
    (withIdentity nfc artifactId build rows).Reads s fun _ => True := by
  induction rows with
  | nil => exact Client.Reads.ret trivial
  | cons row rows ih =>
    refine (reads_getArtifact hs (hid row List.mem_cons_self)).bind fun found _ => ?_
    obtain ⟨value, hvalue⟩ := hbuild row List.mem_cons_self found.1
    refine (Client.Reads.ofExcept (Q := fun _ => True) hvalue trivial).bind fun _ _ => ?_
    refine (ih (fun r hr => hid r (List.mem_cons_of_mem _ hr))
      (fun r hr => hbuild r (List.mem_cons_of_mem _ hr))).bind fun _ _ => ?_
    exact Client.Reads.ret trivial

theorem validateAll_eq_ok {ρ α : Type} {validate : ρ → Except StoreError α} {rows : List ρ}
    (h : ∀ row ∈ rows, ∃ value, validate row = .ok value) :
    ∃ values, validateAll validate rows = .ok values := by
  induction rows with
  | nil => exact ⟨[], rfl⟩
  | cons row rows ih =>
    obtain ⟨value, hvalue⟩ := h row List.mem_cons_self
    obtain ⟨values, hvalues⟩ := ih fun r hr => h r (List.mem_cons_of_mem _ hr)
    exact ⟨value :: values, by simp [validateAll, hvalue, hvalues, bind, Except.bind]⟩

@[simp] theorem projects_optionalStr (s : Option String) : Projects nfc (optionalStr s) := by
  cases s <;> simp [optionalStr]

@[simp] theorem projects_strTuple (texts : List String) : Projects nfc (strTuple texts) :=
  projects_list (by simp)

@[simp] theorem projects_enum_str (s : String) : Projects nfc (.enum (.str s)) :=
  projects_enum (projects_str s)

theorem projects_dumps {α : Type} {dump : α → PyValue} (h : ∀ a, Projects nfc (dump a))
    (values : List α) : Projects nfc (.list (values.map dump)) :=
  projects_list (by simpa using fun a _ => h a)

theorem projects_artifactDump (r : StoredArtifactRecord) : Projects nfc r.dump :=
  projects_model (by simp only [List.map_cons, List.map_nil]; decide) (by simp) (by simp)

theorem projects_baselineDump (r : BaselineRegistration) : Projects nfc r.dump :=
  projects_model (by simp only [List.map_cons, List.map_nil]; decide) (by simp) (by simp)

theorem projects_comparisonDump (r : BaselineComparisonResult) : Projects nfc r.dump :=
  projects_model (by simp only [List.map_cons, List.map_nil]; decide) (by simp) (by simp)

theorem projects_amendmentDump (r : AmendmentRecord) : Projects nfc r.dump :=
  projects_model (by simp only [List.map_cons, List.map_nil]; decide) (by simp) (by simp)

theorem projects_decisionDump (r : PlatformDecisionEnvelope) : Projects nfc r.dump :=
  projects_model
    (by simp only [PlatformDecisionEnvelope.fields, List.cons_append, List.nil_append,
          List.map_cons, List.map_nil]; decide)
    (by simp [PlatformDecisionEnvelope.fields])
    (by simp [PlatformDecisionEnvelope.fields])

theorem projects_certificationDump (r : CertificationEnvelope) : Projects nfc r.dump :=
  projects_model
    (by simp only [CertificationEnvelope.fields, List.cons_append, List.nil_append,
          List.map_cons, List.map_nil]; decide)
    (by simp [CertificationEnvelope.fields])
    (by simp [CertificationEnvelope.fields])

theorem projects_eventDump (r : GovernanceAuditEvent) : Projects nfc r.dump :=
  projects_model (by simp only [List.map_cons, List.map_nil]; decide) (by simp) (by simp)

theorem projects_historyPayload (h : GovernanceHistory) : Projects nfc (historyPayload h) := by
  refine projects_record (by simp only [List.map_cons, List.map_nil]; decide) (by simp) ?_
  simp [projects_artifactDump, projects_dumps, projects_baselineDump, projects_comparisonDump,
    projects_amendmentDump, projects_decisionDump, projects_certificationDump, projects_eventDump]

theorem digestOf_eq_ok {value : PyValue} (h : Projects nfc value) :
    ∃ digest, digestOf nfc value = .ok digest := by
  obtain ⟨digest, hdigest⟩ := h.canonicalDigest
  exact ⟨digest, liftJson_eq_ok.mpr hdigest⟩

theorem ComparisonRow.Readable.toResult {row : ComparisonRow} (h : row.Readable)
    (identity : StoredArtifactRecord) : ∃ value, row.toResult identity = .ok value := by
  obtain ⟨t, ht⟩ := h.status
  obtain ⟨canonical, hcanonical⟩ := h.comparedAt
  simp only [ComparisonRow.toResult, ht, BaselineComparisonResult.validated,
    if_pos h.classification, timestampField, hcanonical, bind, Except.bind]
  exact ⟨_, rfl⟩

theorem Timestamped.toRecord {row : AmendmentRow} (h : Timestamped row.amendedAt)
    (identity : StoredArtifactRecord) : ∃ value, row.toRecord identity = .ok value := by
  obtain ⟨canonical, hcanonical⟩ := h
  simp only [AmendmentRow.toRecord, AmendmentRecord.validated, timestampField, hcanonical, bind,
    Except.bind]
  exact ⟨_, rfl⟩

theorem mem_of_mem_select {α : Type} {p : α → Bool} {r : α → α → Prop} [DecidableRel r]
    {rows : List α} {row : α} (h : row ∈ (rows.filter p).insertionSort r) : row ∈ rows :=
  List.mem_of_mem_filter ((List.mem_insertionSort r).mp h)

/-- The history of a stored artifact reports a valid chain. -/
theorem reads_history {s : Store} (hs : s.Wf nfc) {artifactId : String}
    (h : s.hasArtifact artifactId = true) :
    (history nfc artifactId).Reads s fun value => value.auditChainValid = true := by
  refine (reads_getArtifact hs h).bind fun found _ => ?_
  refine Client.Reads.bind (Q := fun rows => rows = historyRows artifactId s) ⟨_, rfl, rfl⟩ ?_
  rintro _ rfl
  have hbaselines : ∃ values, validateAll BaselineRegistration.validated
      (historyRows artifactId s).baselines = .ok values :=
    validateAll_eq_ok fun row hrow => hs.baselines row (mem_of_mem_select hrow)
  obtain ⟨baselines, hbaselines⟩ := hbaselines
  refine (Client.Reads.ofExcept (Q := fun _ => True) hbaselines trivial).bind fun _ _ => ?_
  have hcomparisons : ∀ row ∈ (historyRows artifactId s).comparisons, row ∈ s.comparisons :=
    fun row hrow => mem_of_mem_select hrow
  refine (reads_withIdentity hs _ (fun row hrow => (hs.comparisons row (hcomparisons row hrow)).2)
    fun row hrow => (hs.comparisons row (hcomparisons row hrow)).1.toResult).bind fun _ _ => ?_
  have hamendments : ∀ row ∈ (historyRows artifactId s).amendments, row ∈ s.amendments :=
    fun row hrow => mem_of_mem_select hrow
  refine (reads_withIdentity hs _ (fun row hrow => (hs.amendments row (hamendments row hrow)).2)
    fun row hrow => (hs.amendments row (hamendments row hrow)).1.toRecord).bind fun _ _ => ?_
  have hdecisions : ∃ values, validateAll PlatformDecisionEnvelope.validated
      (historyRows artifactId s).decisions = .ok values :=
    validateAll_eq_ok fun row hrow => hs.platformDecisions row (mem_of_mem_select hrow)
  obtain ⟨decisions, hdecisions⟩ := hdecisions
  refine (Client.Reads.ofExcept (Q := fun _ => True) hdecisions trivial).bind fun _ _ => ?_
  have hcertifications : ∃ values, validateAll CertificationEnvelope.validated
      (historyRows artifactId s).certifications = .ok values :=
    validateAll_eq_ok fun row hrow => hs.certifications row (mem_of_mem_select hrow)
  obtain ⟨certifications, hcertifications⟩ := hcertifications
  refine (Client.Reads.ofExcept (Q := fun _ => True) hcertifications trivial).bind fun _ _ => ?_
  have hevents : ∃ values, validateAll AuditRow.toEvent
      (historyRows artifactId s).events = .ok values := by
    refine validateAll_eq_ok fun row hrow => hs.events row ?_
    have hmem := List.mem_of_mem_filter hrow
    rwa [hs.eventsInOrder] at hmem
  obtain ⟨events, hevents⟩ := hevents
  refine (Client.Reads.ofExcept (Q := fun _ => True) hevents trivial).bind fun _ _ => ?_
  have hvalid : chainValid nfc (historyRows artifactId s).allEvents = .ok true := by
    show HashChain.verify _ _ none s.eventsInOrder = _
    rw [hs.eventsInOrder]
    exact HashChain.verify_eq_ok_true_iff.mpr hs.linked
  refine (Client.Reads.ofExcept (Q := fun valid => valid = true) hvalid rfl).bind fun valid hv => ?_
  obtain ⟨digest, hdigest⟩ := digestOf_eq_ok (projects_historyPayload _)
  refine (Client.Reads.ofExcept (Q := fun _ => True) hdigest trivial).bind fun _ _ => ?_
  exact Client.Reads.ret hv

/-- **The audit chain verifies** after every run whose admissions spell their timestamps
canonically: `history` of a stored artifact returns and reports a valid chain. -/
theorem audit_chain_valid_of_canonical_spelling (nfc : Nfc) (ops : List Operation)
    (hops : ∀ op ∈ ops, op.SpelledCanonically) (artifactId : String)
    (hstored : (Store.after nfc ops).hasArtifact artifactId = true) :
    ∃ value, ((history nfc artifactId).run (Store.after nfc ops)).1 = .ok value ∧
      value.auditChainValid = true ∧ ChainLinked nfc (Store.after nfc ops).eventsInOrder := by
  have hwf : (Store.after nfc ops).Wf nfc := Store.after_wf hops
  obtain ⟨value, hrun, hvalid⟩ := reads_history hwf hstored
  refine ⟨value, by rw [hrun], hvalid, ?_⟩
  rw [hwf.eventsInOrder]
  exact hwf.linked

/-! ### A run that spells its timestamp differently -/

/-- A batch without members. -/
def emptyRuntimeBatch : RuntimeVerificationBatch where
  planBatchDigest := "plan-batch-1"
  executionRecords := []
  verificationResults := []
  other := ⟨[("schema_version", .str "runtime-verification-batch-1.0")], rfl⟩
  contentDigest := "sha256:b2d163698abbcc2483e0791009cb1c2f2b114a037bae2e17bd79bc3f48b191cf"

def emptyRuntimeBatchId : String :=
  artifactIdOf .runtimeVerificationBatch "plan-batch-1" emptyRuntimeBatch.contentDigest

/-- A batch admitted at a canonical timestamp. -/
theorem audit_chain_valid_after_canonical_admission :
    ∃ value, ((history asciiNfc emptyRuntimeBatchId).run (Store.after asciiNfc
        [.admitRuntimeBatch emptyRuntimeBatch "2026-07-29T00:00:00.000000Z" "actor-1"])).1
        = .ok value ∧ value.auditChainValid = true ∧
      ChainLinked asciiNfc (Store.after asciiNfc
        [.admitRuntimeBatch emptyRuntimeBatch "2026-07-29T00:00:00.000000Z"
          "actor-1"]).eventsInOrder := by
  refine audit_chain_valid_of_canonical_spelling _ _ ?_ _ (by decide +kernel)
  intro op hop
  rw [List.mem_singleton.mp hop]
  show SpelledCanonically "2026-07-29T00:00:00.000000Z"
  decide +kernel

/-- The same admission at the same instant, spelled without the fraction: the digest of the event is
taken of `2026-07-29T00:00:00Z`, the column holds `2026-07-29T00:00:00.000000Z`. -/
theorem audit_chain_broken_by_short_spelling :
    (Store.after asciiNfc
      [.admitRuntimeBatch emptyRuntimeBatch "2026-07-29T00:00:00Z" "actor-1"]).hasArtifact
        emptyRuntimeBatchId = true ∧
    ((history asciiNfc emptyRuntimeBatchId).run (Store.after asciiNfc
      [.admitRuntimeBatch emptyRuntimeBatch "2026-07-29T00:00:00Z" "actor-1"])).1.map
        GovernanceHistory.auditChainValid = .ok false := by
  decide +kernel

end AtlasDb.Governance
