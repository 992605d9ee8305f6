import AtlasDb.Governance.AuditChain
import Mathlib.Data.List.Chain

/-!
# Rows and their events

The pairing of the tables with the audit log: the events are numbered 1, 2, … and linked, the events
of a kind are those of the rows of its table, one for each row in the order of insertion, and no row
is ever changed or removed. It holds along every interleaving of clients, since a row and its event
are written by one transaction and the number of the event is read after the transaction's first
INSERT.
-/

namespace AtlasDb.Governance

open Core Core.Timestamp Lib

variable {nfc : Nfc}

/-! ## The invariant -/

/-- The artifact and digest of each event of a kind. -/
def Store.eventsOf (s : Store) (t : GovernanceEventType) : List (String × String) :=
  (s.auditEvents.filter fun e => e.eventType = t.value).map fun e => (e.artifactId, e.payloadDigest)

/-- The log is numbered without gaps, and each event names the one before it. -/
structure Chained (events : List AuditRow) : Prop where
  sequences : events.map AuditRow.sequence = List.range' 1 events.length
  links : events.IsChain fun a b => b.previousEventDigest = some a.contentDigest

structure Store.Paired (s : Store) : Prop where
  chained : Chained s.auditEvents
  artifactIds : (s.artifacts.map ArtifactRow.artifactId).Nodup
  artifacts : s.eventsOf .artifactCached = s.artifacts.map fun r => (r.artifactId, r.payloadDigest)
  baselines : s.eventsOf .referenceBaselineCached =
    s.baselines.map fun r => (r.artifactId, r.contentDigest)
  amendments : s.eventsOf .reviewAmendmentCached =
    s.amendments.map fun r => (r.amendedArtifactId, r.contentDigest)
  platformDecisions : s.eventsOf .externalPlatformDecisionCached =
    s.platformDecisions.map fun r => (r.artifactId, r.contentDigest)
  certifications : s.eventsOf .externalCertificationCached =
    s.certifications.map fun r => (r.artifactId, r.contentDigest)
  parents : ∀ row ∈ s.artifacts, ∀ parent ∈ row.parentArtifactId, s.hasArtifact parent = true

theorem Store.empty_paired : Store.empty.Paired where
  chained := ⟨rfl, List.isChain_nil⟩
  artifactIds := List.nodup_nil
  artifacts := rfl
  baselines := rfl
  amendments := rfl
  platformDecisions := rfl
  certifications := rfl
  parents := by simp [Store.empty]

/-- Every table of the first store begins the same table of the second. -/
structure Store.Extends (s s' : Store) : Prop where
  artifacts : s.artifacts <+: s'.artifacts
  baselines : s.baselines <+: s'.baselines
  comparisons : s.comparisons <+: s'.comparisons
  amendments : s.amendments <+: s'.amendments
  platformDecisions : s.platformDecisions <+: s'.platformDecisions
  certifications : s.certifications <+: s'.certifications
  auditEvents : s.auditEvents <+: s'.auditEvents

theorem Store.Extends.refl (s : Store) : s.Extends s :=
  ⟨List.prefix_rfl, List.prefix_rfl, List.prefix_rfl, List.prefix_rfl, List.prefix_rfl,
    List.prefix_rfl, List.prefix_rfl⟩

/-! ## One more event -/

theorem Chained.ordered {events : List AuditRow} (h : Chained events) :
    events.Pairwise fun a b => a.sequence ≤ b.sequence := by
  have hrange : (events.map AuditRow.sequence).Pairwise (· ≤ ·) := by
    rw [h.sequences]
    exact List.pairwise_le_range'
  exact List.pairwise_map.1 hrange

theorem Chained.eventsInOrder {s : Store} (h : Chained s.auditEvents) :
    s.eventsInOrder = s.auditEvents :=
  h.ordered.insertionSort_eq

theorem Chained.last_sequence {events : List AuditRow} (h : Chained events) {last : AuditRow}
    (hlast : events.getLast? = some last) : last.sequence = events.length := by
  obtain ⟨init, rfl⟩ := List.getLast?_eq_some_iff.mp hlast
  have hsequences := h.sequences
  rw [List.map_append, List.length_append, List.length_singleton, List.range'_concat] at hsequences
  have hlast' := List.append_inj_right' hsequences rfl
  simp at hlast'
  rw [List.length_append, List.length_singleton, hlast', Nat.add_comm]

/-- One more event keeps the chain. -/
theorem Chained.append {s : Store} (h : Chained s.auditEvents) (eventType : GovernanceEventType)
    (artifactId actorRef eventAt payloadDigest contentDigest : String) :
    Chained (s.auditEvents ++ [(nextEvent s.eventsInOrder.getLast? eventType artifactId actorRef
      eventAt payloadDigest contentDigest).toRow]) := by
  rw [h.eventsInOrder]
  constructor
  · rw [List.map_append, h.sequences, List.length_append, List.length_singleton, List.range'_concat]
    congr 1
    simp only [List.map_cons, List.map_nil, List.cons.injEq, and_true]
    cases hlast : s.auditEvents.getLast? with
    | none =>
      rw [List.getLast?_eq_none_iff.mp hlast]
      rfl
    | some last =>
      show last.sequence + 1 = _
      rw [h.last_sequence hlast]
      omega
  · rw [List.isChain_append]
    refine ⟨h.links, List.isChain_singleton _, fun a ha b hb => ?_⟩
    simp only [List.head?_cons, Option.mem_def, Option.some.injEq] at hb
    subst hb
    rw [Option.mem_def] at ha
    show (s.auditEvents.getLast?).map AuditRow.contentDigest = _
    rw [ha]
    rfl

/-- A transaction that inserts a row and appends an event: the constraints hold, and the store has
the row and one more event. -/
theorem insertThenAppend_eq_ok {α : Type} {constraints : Store → List (Bool × String)}
    {add : Store → Store} {eventType : GovernanceEventType}
    {artifactId actorRef eventAt payloadDigest : String} {value a : α} {s s' : Store}
    (h : (do insertRow constraints add
             let _ ← appendEvent nfc eventType artifactId actorRef eventAt payloadDigest
             pure value : StoreTxn α) s = .ok (a, s')) :
    (∀ c ∈ constraints s, c.1 = true) ∧ ∃ contentDigest canonical,
      s' = { add s with auditEvents := (add s).auditEvents ++
        [(nextEvent (add s).eventsInOrder.getLast? eventType artifactId actorRef canonical
          payloadDigest contentDigest).toRow] } := by
  obtain ⟨u, s₁, hinsert, h₁⟩ := Txn.bind_eq_ok.mp h
  obtain ⟨rfl, hconstraints⟩ := insertRow_eq_ok hinsert
  obtain ⟨event, s₂, happend, h₂⟩ := Txn.bind_eq_ok.mp h₁
  obtain ⟨contentDigest, canonical, -, -, rfl⟩ := appendEvent_eq_ok happend
  cases h₂
  exact ⟨hconstraints, contentDigest, canonical, rfl⟩

variable {I : Store → Prop}

theorem keeps_insertThenAppend {α : Type}
    {constraints : Store → List (Bool × String)} {add : Store → Store}
    {eventType : GovernanceEventType}
    {artifactId actorRef eventAt payloadDigest : String} {value : α}
    (h : ∀ s events, I s → I { add s with auditEvents := events }) :
    Keeps I (do
      insertRow constraints add
      let _ ← appendEvent nfc eventType artifactId actorRef eventAt payloadDigest
      pure value : StoreTxn α) := by
  intro s a s' hs hrun
  obtain ⟨-, contentDigest, canonical, rfl⟩ := insertThenAppend_eq_ok hrun
  exact h s _ hs

theorem GovernanceEventType.value_injective {t t' : GovernanceEventType} (h : t.value = t'.value) :
    t = t' := by
  have ht := GovernanceEventType.ofValue_value t
  rw [h, GovernanceEventType.ofValue_value] at ht
  exact (Option.some.inj ht).symm

section Events

variable {s : Store} {previous : Option AuditRow} {t eventType : GovernanceEventType}
  {artifactId actorRef eventAt payloadDigest contentDigest : String}

theorem eventsOf_append_own :
    ({ s with auditEvents := s.auditEvents ++ [(nextEvent previous eventType artifactId actorRef
      eventAt payloadDigest contentDigest).toRow] } : Store).eventsOf eventType =
      s.eventsOf eventType ++ [(artifactId, payloadDigest)] := by
  simp only [Store.eventsOf, List.filter_append, List.map_append]
  congr 1
  simp [GovernanceAuditEvent.toRow, nextEvent]

theorem eventsOf_append_other (h : eventType ≠ t) :
    ({ s with auditEvents := s.auditEvents ++ [(nextEvent previous eventType artifactId actorRef
      eventAt payloadDigest contentDigest).toRow] } : Store).eventsOf t = s.eventsOf t := by
  have hne : eventType.value ≠ t.value := fun heq => h (GovernanceEventType.value_injective heq)
  simp only [Store.eventsOf, List.filter_append, List.map_append]
  simp [GovernanceAuditEvent.toRow, nextEvent, hne]

theorem eventsOf_append_row {ρ : Type} {rows : List ρ} {row : ρ} {key : ρ → String × String}
    (h : s.eventsOf eventType = rows.map key) (hrow : key row = (artifactId, payloadDigest)) :
    ({ s with auditEvents := s.auditEvents ++ [(nextEvent previous eventType artifactId actorRef
      eventAt payloadDigest contentDigest).toRow] } : Store).eventsOf eventType =
      (rows ++ [row]).map key := by
  rw [eventsOf_append_own, h, List.map_append, List.map_singleton, hrow]

end Events

/-! ## Transactions -/

/-- Storing an artifact keeps rows and events paired. -/
theorem keeps_paired_storeArtifact {a : Admission} {record : StoredArtifactRecord}
    {payload : Json} :
    Keeps Store.Paired (storeArtifact nfc a record payload) := by
  intro s result s' hs hrun
  obtain ⟨hconstraints, contentDigest, canonical, rfl⟩ := insertThenAppend_eq_ok hrun
  simp only [List.mem_cons, List.not_mem_nil, or_false, forall_eq_or_imp, forall_eq] at hconstraints
  obtain ⟨hfresh, -, hparent⟩ := hconstraints
  have hnew : record.artifactId ∉ s.artifacts.map ArtifactRow.artifactId := by
    simpa [Store.hasArtifact] using hfresh
  refine
    { chained := Chained.append (s := { s with artifacts := _ }) hs.chained _ _ _ _ _ _
      artifactIds := ?_
      artifacts := eventsOf_append_row hs.artifacts rfl
      baselines := (eventsOf_append_other (by decide)).trans hs.baselines
      amendments := (eventsOf_append_other (by decide)).trans hs.amendments
      platformDecisions := (eventsOf_append_other (by decide)).trans hs.platformDecisions
      certifications := (eventsOf_append_other (by decide)).trans hs.certifications
      parents := ?_ }
  · simp only [List.map_append, List.map_cons, List.map_nil, List.nodup_append]
    refine ⟨hs.artifactIds, by simp, fun x hx y hy => ?_⟩
    rw [List.mem_singleton.1 hy]
    rintro rfl
    exact hnew hx
  · intro row hrow parent hmem
    rcases List.mem_append.1 hrow with hrow | hrow
    · exact hasArtifact_append (hs.parents row hrow parent hmem)
    · rw [List.mem_singleton.1 hrow] at hmem
      simp only [Option.mem_def] at hmem
      rw [hmem, Option.all_some, Bool.or_eq_true, decide_eq_true_eq] at hparent
      rcases hparent with hstored | rfl
      · exact hasArtifact_append hstored
      · simp [Store.hasArtifact]

theorem keeps_paired_storeBaseline {actorRef : String} {registration : BaselineRegistration} :
    Keeps Store.Paired (storeBaseline nfc actorRef registration) := by
  intro s result s' hs hrun
  obtain ⟨-, contentDigest, canonical, rfl⟩ := insertThenAppend_eq_ok hrun
  exact
    { chained := Chained.append (s := { s with baselines := _ }) hs.chained _ _ _ _ _ _
      artifactIds := hs.artifactIds
      artifacts := (eventsOf_append_other (by decide)).trans hs.artifacts
      baselines := eventsOf_append_row hs.baselines rfl
      amendments := (eventsOf_append_other (by decide)).trans hs.amendments
      platformDecisions := (eventsOf_append_other (by decide)).trans hs.platformDecisions
      certifications := (eventsOf_append_other (by decide)).trans hs.certifications
      parents := hs.parents }

theorem keeps_paired_compareSession {actorRef : String} {result : BaselineComparisonResult} :
    Keeps Store.Paired (compareSession nfc actorRef result) := by
  intro s value s' hs hrun
  obtain ⟨-, contentDigest, canonical, rfl⟩ := insertThenAppend_eq_ok hrun
  -- whether the row is new or ignored, only the comparisons and the log may have changed
  have hsame : ∃ comparisons : List ComparisonRow,
      (if s.comparisons.any fun r => r.comparisonId = result.toRow.comparisonId then s
        else { s with comparisons := s.comparisons ++ [result.toRow] }) =
        { s with comparisons } := by
    split
    · exact ⟨s.comparisons, rfl⟩
    · exact ⟨_, rfl⟩
  obtain ⟨comparisons, hsame⟩ := hsame
  rw [hsame]
  exact
    { chained := Chained.append (s := { s with comparisons := _ }) hs.chained _ _ _ _ _ _
      artifactIds := hs.artifactIds
      artifacts := (eventsOf_append_other (by decide)).trans hs.artifacts
      baselines := (eventsOf_append_other (by decide)).trans hs.baselines
      amendments := (eventsOf_append_other (by decide)).trans hs.amendments
      platformDecisions := (eventsOf_append_other (by decide)).trans hs.platformDecisions
      certifications := (eventsOf_append_other (by decide)).trans hs.certifications
      parents := hs.parents }

theorem keeps_paired_amendSession {amendment : AmendmentRecord} :
    Keeps Store.Paired (amendSession nfc amendment) := by
  intro s value s' hs hrun
  obtain ⟨-, contentDigest, canonical, rfl⟩ := insertThenAppend_eq_ok hrun
  exact
    { chained := Chained.append (s := { s with amendments := _ }) hs.chained _ _ _ _ _ _
      artifactIds := hs.artifactIds
      artifacts := (eventsOf_append_other (by decide)).trans hs.artifacts
      baselines := (eventsOf_append_other (by decide)).trans hs.baselines
      amendments := eventsOf_append_row hs.amendments rfl
      platformDecisions := (eventsOf_append_other (by decide)).trans hs.platformDecisions
      certifications := (eventsOf_append_other (by decide)).trans hs.certifications
      parents := hs.parents }

theorem keeps_paired_storePlatformDecision {envelope : PlatformDecisionEnvelope} :
    Keeps Store.Paired (storePlatformDecision nfc envelope) := by
  intro s value s' hs hrun
  obtain ⟨-, contentDigest, canonical, rfl⟩ := insertThenAppend_eq_ok hrun
  exact
    { chained := Chained.append (s := { s with platformDecisions := _ }) hs.chained _ _ _ _ _ _
      artifactIds := hs.artifactIds
      artifacts := (eventsOf_append_other (by decide)).trans hs.artifacts
      baselines := (eventsOf_append_other (by decide)).trans hs.baselines
      amendments := (eventsOf_append_other (by decide)).trans hs.amendments
      platformDecisions := eventsOf_append_row hs.platformDecisions rfl
      certifications := (eventsOf_append_other (by decide)).trans hs.certifications
      parents := hs.parents }

theorem keeps_paired_storeCertification {envelope : CertificationEnvelope} :
    Keeps Store.Paired (storeCertification nfc envelope) := by
  intro s value s' hs hrun
  obtain ⟨-, contentDigest, canonical, rfl⟩ := insertThenAppend_eq_ok hrun
  exact
    { chained := Chained.append (s := { s with certifications := _ }) hs.chained _ _ _ _ _ _
      artifactIds := hs.artifactIds
      artifacts := (eventsOf_append_other (by decide)).trans hs.artifacts
      baselines := (eventsOf_append_other (by decide)).trans hs.baselines
      amendments := (eventsOf_append_other (by decide)).trans hs.amendments
      platformDecisions := (eventsOf_append_other (by decide)).trans hs.platformDecisions
      certifications := eventsOf_append_row hs.certifications rfl
      parents := hs.parents }

theorem transactionsKeep_paired : TransactionsKeep nfc Store.Paired fun _ => True where
  storeArtifact _ _ _ := keeps_paired_storeArtifact
  storeBaseline _ _ _ := keeps_paired_storeBaseline
  compareSession _ := keeps_paired_compareSession
  amendSession _ := keeps_paired_amendSession
  storePlatformDecision _ _ := keeps_paired_storePlatformDecision
  storeCertification _ _ := keeps_paired_storeCertification

/-! ## No row is changed or removed -/

theorem keeps_extends {α : Type} {constraints : Store → List (Bool × String)} {add : Store → Store}
    {eventType : GovernanceEventType}
    {artifactId actorRef eventAt payloadDigest : String} {value : α}
    (s₀ : Store) (hadd : ∀ s : Store, s.Extends (add s)) :
    Keeps s₀.Extends (do
      insertRow constraints add
      let _ ← appendEvent nfc eventType artifactId actorRef eventAt payloadDigest
      pure value : StoreTxn α) := by
  intro s a s' hs hrun
  obtain ⟨-, contentDigest, canonical, rfl⟩ := insertThenAppend_eq_ok hrun
  exact
    { artifacts := hs.artifacts.trans (hadd s).artifacts
      baselines := hs.baselines.trans (hadd s).baselines
      comparisons := hs.comparisons.trans (hadd s).comparisons
      amendments := hs.amendments.trans (hadd s).amendments
      platformDecisions := hs.platformDecisions.trans (hadd s).platformDecisions
      certifications := hs.certifications.trans (hadd s).certifications
      auditEvents := (hs.auditEvents.trans (hadd s).auditEvents).trans (List.prefix_append _ _) }

theorem transactionsKeep_extends (s₀ : Store) : TransactionsKeep nfc s₀.Extends fun _ => True where
  storeArtifact _ _ _ := keeps_extends s₀ fun s =>
    { Store.Extends.refl s with artifacts := List.prefix_append _ _ }
  storeBaseline _ _ _ := keeps_extends s₀ fun s =>
    { Store.Extends.refl s with baselines := List.prefix_append _ _ }
  compareSession _ := keeps_extends s₀ fun s => by
    split
    · exact Store.Extends.refl s
    · exact { Store.Extends.refl s with comparisons := List.prefix_append _ _ }
  amendSession _ := keeps_extends s₀ fun s =>
    { Store.Extends.refl s with amendments := List.prefix_append _ _ }
  storePlatformDecision _ _ := keeps_extends s₀ fun s =>
    { Store.Extends.refl s with platformDecisions := List.prefix_append _ _ }
  storeCertification _ _ := keeps_extends s₀ fun s =>
    { Store.Extends.refl s with certifications := List.prefix_append _ _ }

/-! ## Any number of clients -/

/-- What a client may do: an operation that writes, or a reading one. -/
inductive Starts (nfc : Nfc) : StoreClient Unit → Prop where
  | operation (op : Operation) : Starts nfc (op.client nfc)
  | getArtifact (artifactId : String) :
      Starts nfc (Operation.client.discard (Governance.getArtifact nfc artifactId))
  | history (artifactId : String) :
      Starts nfc (Operation.client.discard (Governance.history nfc artifactId))

theorem preserves_withIdentity {ρ α : Type} {artifactId : ρ → String}
    {build : ρ → StoredArtifactRecord → Except StoreError α} (rows : List ρ) :
    (withIdentity nfc artifactId build rows).Preserves I := by
  induction rows with
  | nil => trivial
  | cons row rows ih =>
    refine (preserves_getArtifact _).bind fun _ => ?_
    refine (Client.Preserves.ofExcept _).bind fun _ => ?_
    exact ih.bind fun _ => trivial

theorem preserves_history (artifactId : String) :
    (history nfc artifactId).Preserves I := by
  refine (preserves_getArtifact _).bind fun _ => ?_
  refine (preserves_select _).bind fun _ => ?_
  refine (Client.Preserves.ofExcept _).bind fun _ => ?_
  refine (preserves_withIdentity _).bind fun _ => ?_
  refine (preserves_withIdentity _).bind fun _ => ?_
  refine (Client.Preserves.ofExcept _).bind fun _ => ?_
  refine (Client.Preserves.ofExcept _).bind fun _ => ?_
  refine (Client.Preserves.ofExcept _).bind fun _ => ?_
  refine (Client.Preserves.ofExcept _).bind fun _ => ?_
  exact (Client.Preserves.ofExcept _).bind fun _ => trivial

theorem Starts.preserves (keep : TransactionsKeep nfc I fun _ => True)
    {c : StoreClient Unit} (h : Starts nfc c) : c.Preserves I := by
  cases h with
  | operation op => exact op.preserves keep (by cases op <;> trivial)
  | getArtifact artifactId => exact preserves_discard (preserves_getArtifact artifactId)
  | history artifactId => exact preserves_discard (preserves_history artifactId)

/-- A system that began with the tables just created. -/
def Reachable (nfc : Nfc) (sys : System Store StoreError Unit) : Prop :=
  Relation.ReflTransGen (Interleaving (Starts nfc)) ⟨Store.empty, []⟩ sys

theorem clientsPreserve_of_reachable (keep : TransactionsKeep nfc I fun _ => True)
    {sys : System Store StoreError Unit} (h : Reachable nfc sys) :
    Interleaving.ClientsPreserve I sys :=
  Interleaving.clientsPreserve (fun _ => Starts.preserves keep) h (by intro c hc; cases hc)

theorem reachable_after (nfc : Nfc) (ops : List Operation) :
    ∃ clients, Reachable nfc ⟨Store.after nfc ops, clients⟩ := by
  have hrun : ∀ (ops : List Operation) (s : Store) (clients : List (StoreClient Unit)),
      Reachable nfc ⟨s, clients⟩ →
        ∃ clients', Reachable nfc ⟨runAll (Operation.perform nfc) ops s, clients'⟩ := by
    intro ops
    induction ops with
    | nil => exact fun s clients h => ⟨clients, h⟩
    | cons op ops ih =>
      intro s clients h
      obtain ⟨c', hpath⟩ := Interleaving.of_run (Starts nfc) clients [] (op.client nfc) s
      have hstart : Reachable nfc ⟨s, clients ++ [op.client nfc]⟩ :=
        h.tail (.start (.operation op))
      rw [← op.perform_eq] at hpath
      exact ih _ _ (hstart.trans hpath)
  exact hrun ops Store.empty [] .refl

theorem Store.Paired.one_event {s : Store} (h : s.Paired) {row : ArtifactRow}
    (hrow : row ∈ s.artifacts) :
    (s.auditEvents.filter fun e => e.eventType = GovernanceEventType.artifactCached.value ∧
      e.artifactId = row.artifactId ∧ e.payloadDigest = row.payloadDigest).length = 1 := by
  have hcount : (s.eventsOf .artifactCached).count (row.artifactId, row.payloadDigest) = 1 := by
    rw [h.artifacts]
    refine List.count_eq_one_of_mem (List.Nodup.of_map Prod.fst ?_)
      (List.mem_map.2 ⟨row, hrow, rfl⟩)
    rw [List.map_map]
    exact h.artifactIds
  rw [Store.eventsOf, List.count, List.countP_map, List.countP_filter, List.countP_eq_length_filter]
    at hcount
  rw [← hcount]
  congr 2
  funext e
  rw [Function.comp, Bool.eq_iff_iff]
  simp [and_comm]

theorem paired_of_reachable {sys : System Store StoreError Unit} (h : Reachable nfc sys) :
    sys.state.Paired :=
  Interleaving.invariant (fun _ => Starts.preserves transactionsKeep_paired) h
    (by intro c hc; cases hc) Store.empty_paired

/-- **Rows and events are paired** in every state any number of clients can bring the store to: the
events are numbered 1, 2, …, each names the digest of the one before it, every artifact has exactly
one event, the events of baselines, amendments, platform decisions and certifications are those of
their rows, one for each, and every parent is stored. From there on no row is changed or removed. -/
theorem evidence_paired (nfc : Nfc) (sys : System Store StoreError Unit) (h : Reachable nfc sys) :
    sys.state.Paired ∧
    (∀ row ∈ sys.state.artifacts, (sys.state.auditEvents.filter fun e =>
      e.eventType = GovernanceEventType.artifactCached.value ∧
        e.artifactId = row.artifactId ∧ e.payloadDigest = row.payloadDigest).length = 1) ∧
    ∀ sys', Relation.ReflTransGen (Interleaving (Starts nfc)) sys sys' →
      sys.state.Extends sys'.state := by
  have hpaired := paired_of_reachable h
  refine ⟨hpaired, fun row hrow => hpaired.one_event hrow, fun sys' hsys' => ?_⟩
  exact Interleaving.invariant
    (fun _ => Starts.preserves (transactionsKeep_extends sys.state)) hsys'
    (clientsPreserve_of_reachable (transactionsKeep_extends sys.state) h)
    (Store.Extends.refl _)

/-! ### A run of three clients -/

/-- Another batch without members. -/
def laterRuntimeBatch : RuntimeVerificationBatch :=
  { emptyRuntimeBatch with
    planBatchDigest := "plan-batch-2"
    contentDigest := "sha256:495fba5ce7783e946350526070d54650b12b6b1459ee7feb6d55f8f2d0a40919" }

def admitRuntime (batch : RuntimeVerificationBatch) (actorRef : String) : StoreClient Unit :=
  (Operation.admitRuntimeBatch batch "2026-07-29T00:00:00Z" actorRef).client asciiNfc

/-- The admission is interrupted after its first transaction, which looks for the artifact. -/
def interruptedAdmission : StoreClient Unit × Store :=
  (admitRuntime emptyRuntimeBatch "actor-1").advance Store.empty

def refusedBaseline : StoreClient Unit :=
  (Operation.registerBaseline "missing" "authority-1" "2026-07-29T00:00:00Z"
    "actor-3").client asciiNfc

/-- Meanwhile the other batch is admitted, and a baseline refused for an artifact that is not
stored. -/
def meanwhile : Store :=
  (refusedBaseline.run ((admitRuntime laterRuntimeBatch "actor-2").run interruptedAdmission.2).2).2

def interleaved : Store := (interruptedAdmission.1.run meanwhile).2

/-- Three clients, one of them refused. -/
theorem evidence_paired_interleaved :
    ∃ sys, Reachable asciiNfc sys ∧ sys.clients.length = 3 ∧
      sys.state.artifacts.map ArtifactRow.artifactRef = ["plan-batch-2", "plan-batch-1"] ∧
      sys.state.Paired := by
  have hinterrupted : Reachable asciiNfc ⟨interruptedAdmission.2, [interruptedAdmission.1]⟩ :=
    .head (.start (.operation _)) (Interleaving.of_advance (Starts asciiNfc) [] []
      (admitRuntime emptyRuntimeBatch "actor-1") Store.empty)
  obtain ⟨admitted, hadmitted⟩ := Interleaving.of_run (Starts asciiNfc) [interruptedAdmission.1] []
    (admitRuntime laterRuntimeBatch "actor-2") interruptedAdmission.2
  obtain ⟨refused, hrefused⟩ := Interleaving.of_run (Starts asciiNfc)
    [interruptedAdmission.1, admitted] [] refusedBaseline
    ((admitRuntime laterRuntimeBatch "actor-2").run interruptedAdmission.2).2
  obtain ⟨finished, hfinished⟩ := Interleaving.of_run (Starts asciiNfc) [] [admitted, refused]
    interruptedAdmission.1 meanwhile
  have hreachable : Reachable asciiNfc ⟨interleaved, [finished, admitted, refused]⟩ :=
    (((hinterrupted.tail (.start (.operation _))).trans hadmitted).tail
      (.start (.operation _))).trans (hrefused.trans hfinished)
  have hrefs : interleaved.artifacts.map ArtifactRow.artifactRef =
    ["plan-batch-2", "plan-batch-1"] := by
    decide +kernel
  exact ⟨⟨interleaved, [finished, admitted, refused]⟩, hreachable, rfl, hrefs,
    (evidence_paired asciiNfc _ hreachable).1⟩

end AtlasDb.Governance
