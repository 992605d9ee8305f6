import AtlasDb.Core.Instant
import AtlasDb.Governance.Admissions

/-!
# The baseline in force

`compare_to_baseline` asks for the registrations whose `effective_from` is not after `compared_at`,
and takes the last of them. The column holds canonical timestamps, which are ordered as the instants
they denote; `compared_at` is compared as the caller spelled it. What the query should find is
stated over instants (`LatestInForce`), and it finds that exactly when the spelling is on the same
side of every registration as its canonical form (`compareToBaseline_uses_latest_iff`).
-/

namespace AtlasDb.Governance

open Core Core.Timestamp Lib

variable {nfc : Nfc}

/-! ## Registrations in the store -/

/-- Every registration starts at a canonical text and has no end. -/
def Store.BaselinesDated (s : Store) : Prop :=
  ∀ b ∈ s.baselines, CanonicalSpelling b.effectiveFrom ∧ b.effectiveTo = none

theorem transactionsKeep_dated : TransactionsKeep nfc Store.BaselinesDated fun _ => True where
  storeArtifact _ _ _ := keeps_insertThenAppend fun _ _ hs => hs
  storeBaseline _ hfrom hto := keeps_insertThenAppend fun s _ hs b hb => by
    rcases List.mem_append.1 hb with hb | hb
    · exact hs b hb
    · rw [List.mem_singleton.1 hb]
      exact ⟨hfrom, hto⟩
  compareSession _ := keeps_insertThenAppend fun s _ hs => by
    split
    · exact hs
    · exact hs
  amendSession _ := keeps_insertThenAppend fun _ _ hs => hs
  storePlatformDecision _ _ := keeps_insertThenAppend fun _ _ hs => hs
  storeCertification _ _ := keeps_insertThenAppend fun _ _ hs => hs

/-- **Run lemma**: in every reachable state the registrations are dated canonically. -/
theorem baselinesDated_of_reachable {sys : System Store StoreError Unit} (h : Reachable nfc sys) :
    sys.state.BaselinesDated :=
  Interleaving.invariant (fun _ => Starts.preserves transactionsKeep_dated) h
    (by intro c hc; cases hc) (by intro b hb; cases hb)

/-! ## What should be found -/

/-- The instant of the first text is not after that of the second. -/
def NotAfter (a b : String) : Prop := ∃ i j, instantOf a = some i ∧ instantOf b = some j ∧ i ≤ j

/-- The instant of the first text is before that of the second. -/
def IsBefore (a b : String) : Prop := ∃ i j, instantOf a = some i ∧ instantOf b = some j ∧ i < j

/-- A registration for the behaviour that has started and not ended at the instant. -/
structure InForce (s : Store) (behaviorId comparedAt : String) (b : BaselineRegistration) :
    Prop where
  registered : b ∈ s.baselines
  behavior : b.behaviorId = behaviorId
  started : NotAfter b.effectiveFrom comparedAt
  notEnded : ∀ last ∈ b.effectiveTo, IsBefore comparedAt last

/-- The registration in force that started last, or none if none is in force. -/
def LatestInForce (s : Store) (behaviorId comparedAt : String) : Option BaselineRegistration → Prop
  | none => ∀ b, ¬ InForce s behaviorId comparedAt b
  | some b => InForce s behaviorId comparedAt b ∧
      ∀ b', InForce s behaviorId comparedAt b' → NotAfter b'.effectiveFrom b.effectiveFrom

theorem CanonicalSpelling.le_iff {a b : String} (ha : CanonicalSpelling a)
    (hb : CanonicalSpelling b) : a ≤ b ↔ NotAfter a b := by
  obtain ⟨i, j, hi, hj, hle⟩ := canonical_le_iff ha hb
  rw [hle]
  constructor
  · exact fun h => ⟨i, j, hi, hj, h⟩
  · rintro ⟨i', j', hi', hj', h⟩
    rw [hi] at hi'
    rw [hj] at hj'
    cases hi'
    cases hj'
    exact h

theorem notAfter_canonical {a value canonical : String}
    (h : canonicalTimestamp value = some canonical) : NotAfter a canonical ↔ NotAfter a value := by
  unfold NotAfter
  rw [instantOf_canonical h]

theorem inForce_iff {s : Store} (hs : s.BaselinesDated) {behaviorId comparedAt canonical : String}
    (hat : canonicalTimestamp comparedAt = some canonical) {b : BaselineRegistration} :
    InForce s behaviorId comparedAt b ↔
      b ∈ s.baselines ∧ b.behaviorId = behaviorId ∧ b.effectiveFrom ≤ canonical := by
  have hcanonical : CanonicalSpelling canonical := canonicalTimestamp_idem hat
  constructor
  · intro h
    refine ⟨h.registered, h.behavior, ?_⟩
    rw [(hs b h.registered).1.le_iff hcanonical, notAfter_canonical hat]
    exact h.started
  · rintro ⟨hmem, hbehavior, hle⟩
    rw [(hs b hmem).1.le_iff hcanonical, notAfter_canonical hat] at hle
    refine ⟨hmem, hbehavior, hle, fun last hlast => ?_⟩
    rw [(hs b hmem).2] at hlast
    cases hlast

/-! ## What the query finds -/

theorem head?_sortedDesc {α : Type} {key : α → String} {rows : List α} {row : α}
    (h : (rows.insertionSort fun a b => key b ≤ key a).head? = some row) :
    row ∈ rows ∧ ∀ r ∈ rows, key r ≤ key row := by
  have hsorted := List.pairwise_insertionSort (fun a b : α => key b ≤ key a) rows
  obtain ⟨rest, hrest⟩ := List.head?_eq_some_iff.mp h
  have hmem : ∀ r, r ∈ rows ↔ r ∈ row :: rest := fun r => by
    rw [← hrest, List.mem_insertionSort]
  rw [hrest, List.pairwise_cons] at hsorted
  refine ⟨(hmem row).2 List.mem_cons_self, fun r hr => ?_⟩
  rcases List.mem_cons.1 ((hmem r).1 hr) with rfl | hr'
  · exact String.le_refl _
  · exact hsorted.1 r hr'

section Query

variable {s : Store} {behaviorId comparedAt : String}

theorem baselineInForce_some (hs : s.BaselinesDated) {b : BaselineRegistration}
    (h : baselineInForce behaviorId comparedAt s = some b) :
    (b ∈ s.baselines ∧ b.behaviorId = behaviorId ∧ b.effectiveFrom ≤ comparedAt) ∧
      ∀ b' ∈ s.baselines, b'.behaviorId = behaviorId → b'.effectiveFrom ≤ comparedAt →
        b'.effectiveFrom ≤ b.effectiveFrom := by
  obtain ⟨hmem, hgreatest⟩ := head?_sortedDesc h
  simp only [List.mem_filter, decide_eq_true_eq] at hmem hgreatest
  refine ⟨⟨hmem.1, hmem.2.1, hmem.2.2.1⟩, fun b' hb' hbehavior hle => ?_⟩
  apply hgreatest b'
  refine ⟨hb', hbehavior, hle, ?_⟩
  rw [(hs b' hb').2]
  rfl

theorem baselineInForce_none (hs : s.BaselinesDated)
    (h : baselineInForce behaviorId comparedAt s = none) :
    ∀ b ∈ s.baselines, b.behaviorId = behaviorId → ¬ b.effectiveFrom ≤ comparedAt := by
  intro b hb hbehavior hle
  rw [baselineInForce, List.head?_eq_none_iff] at h
  have hmem : b ∈ s.baselines.filter fun b => b.behaviorId = behaviorId ∧
      b.effectiveFrom ≤ comparedAt ∧ (b.effectiveTo.all fun last => comparedAt < last) := by
    simp only [List.mem_filter, decide_eq_true_eq]
    refine ⟨hb, hbehavior, hle, ?_⟩
    rw [(hs b hb).2]
    rfl
  rw [← List.mem_insertionSort fun a b : BaselineRegistration => b.effectiveFrom ≤ a.effectiveFrom,
    h] at hmem
  cases hmem

/-- The spelling of `compared_at` is on the same side of every registration as its canonical
form. -/
def SameSide (s : Store) (behaviorId comparedAt canonical : String) : Prop :=
  ∀ b ∈ s.baselines, b.behaviorId = behaviorId →
    (b.effectiveFrom ≤ comparedAt ↔ b.effectiveFrom ≤ canonical)

variable {canonical : String}

theorem latestInForce_of_sameSide (hs : s.BaselinesDated)
    (hat : canonicalTimestamp comparedAt = some canonical)
    (h : SameSide s behaviorId comparedAt canonical) :
    LatestInForce s behaviorId comparedAt (baselineInForce behaviorId comparedAt s) := by
  cases hquery : baselineInForce behaviorId comparedAt s with
  | none =>
    intro b hb
    obtain ⟨hmem, hbehavior, hle⟩ := (inForce_iff hs hat).1 hb
    exact baselineInForce_none hs hquery b hmem hbehavior ((h b hmem hbehavior).2 hle)
  | some b =>
    obtain ⟨⟨hmem, hbehavior, hle⟩, hgreatest⟩ := baselineInForce_some hs hquery
    refine ⟨(inForce_iff hs hat).2 ⟨hmem, hbehavior, (h b hmem hbehavior).1 hle⟩, ?_⟩
    intro b' hb'
    obtain ⟨hmem', hbehavior', hle'⟩ := (inForce_iff hs hat).1 hb'
    rw [← (hs b' hmem').1.le_iff (hs b hmem).1]
    exact hgreatest b' hmem' hbehavior' ((h b' hmem' hbehavior').2 hle')

theorem sameSide_of_latestInForce (hs : s.BaselinesDated)
    (hat : canonicalTimestamp comparedAt = some canonical)
    (h : LatestInForce s behaviorId comparedAt (baselineInForce behaviorId comparedAt s)) :
    SameSide s behaviorId comparedAt canonical := by
  intro b hb hbehavior
  cases hquery : baselineInForce behaviorId comparedAt s with
  | none =>
    rw [hquery] at h
    have htext := baselineInForce_none hs hquery b hb hbehavior
    have hforce : ¬ b.effectiveFrom ≤ canonical := fun hle =>
      h b ((inForce_iff hs hat).2 ⟨hb, hbehavior, hle⟩)
    exact iff_of_false htext hforce
  | some used =>
    rw [hquery] at h
    obtain ⟨hforce, hlast⟩ := h
    obtain ⟨hmem, -, husedLe⟩ := (inForce_iff hs hat).1 hforce
    obtain ⟨⟨-, -, hle⟩, hgreatest⟩ := baselineInForce_some hs hquery
    constructor
    · -- it started no later than the one used, which is in force
      exact fun hb' => (hgreatest b hb hbehavior hb').trans husedLe
    · intro hb'
      have hnot := hlast b ((inForce_iff hs hat).2 ⟨hb, hbehavior, hb'⟩)
      rw [← (hs b hb).1.le_iff (hs used hmem).1] at hnot
      exact hnot.trans hle

end Query

/-! ## The comparison -/

theorem readsOnly_baselineVerdict (candidateSignature : String) :
    ∀ baseline, ReadsOnly (baselineVerdict nfc candidateSignature baseline)
  | none => fun _ => rfl
  | some _ =>
    (readsOnly_getArtifact nfc _).bind fun _ => (ReadsOnly.ofExcept _).bind fun _ => fun _ => rfl

theorem baselineVerdict_eq_ok {candidateSignature : String} {s : Store} {verdict : Verdict}
    {baseline : Option BaselineRegistration}
    (h : (baselineVerdict nfc candidateSignature baseline).run s = (.ok verdict, s)) :
    verdict.baselineArtifactId = baseline.map BaselineRegistration.artifactId ∧
      (verdict.status = .noBaseline ↔ baseline = none) := by
  cases baseline with
  | none =>
    cases h
    exact ⟨rfl, iff_of_true rfl rfl⟩
  | some registration =>
    obtain ⟨found, -, h⟩ := run_reads_bind_ok (readsOnly_getArtifact nfc _) h
    obtain ⟨signature, -, h⟩ := run_reads_bind_ok (ReadsOnly.ofExcept _) h
    cases h
    refine ⟨rfl, iff_of_false ?_ (by simp)⟩
    dsimp only
    split
    · decide
    · decide

theorem BaselineComparisonResult.validated_eq_ok {r r' : BaselineComparisonResult}
    (h : r.validated = .ok r') : ∃ comparedAt, r' = { r with comparedAt } := by
  unfold BaselineComparisonResult.validated at h
  split at h
  · simp only [Except.bind_eq_ok] at h
    obtain ⟨at', -, h⟩ := h
    cases h
    exact ⟨at', rfl⟩
  · cases h

theorem transaction_run_ok {α : Type} {body : StoreTxn α} {s s' : Store} {a : α}
    (h : (Client.transaction body).run s = (.ok a, s')) : body s = .ok (a, s') := by
  simp only [Client.transaction, Client.run] at h
  cases hbody : body s with
  | error e =>
    rw [hbody] at h
    cases h
  | ok r =>
    rw [hbody] at h
    cases h
    rfl

theorem compareSession_eq_ok {actorRef : String} {result value : BaselineComparisonResult}
    {s s' : Store} (h : compareSession nfc actorRef result s = .ok (value, s')) :
    value = result := by
  unfold compareSession at h
  obtain ⟨u, s₁, -, h⟩ := Txn.bind_eq_ok.mp h
  obtain ⟨event, s₂, -, h⟩ := Txn.bind_eq_ok.mp h
  cases h
  rfl

/-- What a comparison that returned has done. -/
theorem compareToBaseline_eq_ok {candidateArtifactId comparedAt actorRef : String} {s s' : Store}
    {result : BaselineComparisonResult}
    (h : (compareToBaseline nfc candidateArtifactId comparedAt actorRef).run s = (.ok result, s')) :
    ∃ candidate payload behaviorId,
      (getArtifact nfc candidateArtifactId).run s = (.ok (candidate, payload), s) ∧
      candidate.behaviorId = some behaviorId ∧
      result.baselineArtifactId = (baselineInForce behaviorId comparedAt s).map
        BaselineRegistration.artifactId ∧
      (result.status = .noBaseline ↔ baselineInForce behaviorId comparedAt s = none) ∧
      compareSession nfc actorRef result s = .ok (result, s') := by
  obtain ⟨⟨candidate, payload⟩, hfound, h⟩ := run_reads_bind_ok (readsOnly_getArtifact nfc _) h
  dsimp only at h
  split at h
  · next behaviorId htype hbehavior =>
      split at h
      · cases h
      · obtain ⟨baseline, hquery, h⟩ := run_reads_bind_ok (fun _ => rfl) h
        cases hquery
        obtain ⟨signature, -, h⟩ := run_reads_bind_ok (ReadsOnly.ofExcept _) h
        obtain ⟨verdict, hverdict, h⟩ := run_reads_bind_ok (readsOnly_baselineVerdict _ _) h
        obtain ⟨evidenceRefs, -, h⟩ := run_reads_bind_ok (ReadsOnly.ofExcept _) h
        obtain ⟨contentDigest, -, h⟩ := run_reads_bind_ok (ReadsOnly.ofExcept _) h
        obtain ⟨sourceSymbolId, -, h⟩ := run_reads_bind_ok (ReadsOnly.ofExcept _) h
        obtain ⟨symbolLineageId, -, h⟩ := run_reads_bind_ok (ReadsOnly.ofExcept _) h
        obtain ⟨artifactRevisionId, -, h⟩ := run_reads_bind_ok (ReadsOnly.ofExcept _) h
        obtain ⟨validated, hvalid, h⟩ := run_reads_bind_ok (ReadsOnly.ofExcept _) h
        have hsession := transaction_run_ok h
        obtain rfl := compareSession_eq_ok hsession
        obtain ⟨comparedAt', rfl⟩ :=
          BaselineComparisonResult.validated_eq_ok (ofExcept_run_ok hvalid)
        obtain ⟨hartifact, hstatus⟩ := baselineVerdict_eq_ok hverdict
        exact ⟨candidate, payload, behaviorId, hfound, hbehavior, hartifact, hstatus, hsession⟩
  · cases h

/-- The artifact is a `ScenarioSpec` that `compare_to_baseline` accepts as a candidate. -/
structure Candidate (nfc : Nfc) (s : Store) (candidateArtifactId behaviorId : String) : Prop where
  found : ∃ candidate payload,
    ((getArtifact nfc candidateArtifactId).run s).1 = .ok (candidate, payload) ∧
      candidate.artifactType = .scenarioSpec ∧ candidate.behaviorId = some behaviorId
  behavior : behaviorId ≠ ""

/-- A comparison uses the latest registration in force at the instant `compared_at` denotes, and
reports `NO_BASELINE` exactly if there is none. -/
structure UsesLatest (nfc : Nfc) (s : Store) (candidateArtifactId behaviorId comparedAt : String) :
    Prop where
  selected : LatestInForce s behaviorId comparedAt (baselineInForce behaviorId comparedAt s)
  compared : ∀ actorRef result s',
    (compareToBaseline nfc candidateArtifactId comparedAt actorRef).run s = (.ok result, s') →
      result.baselineArtifactId = (baselineInForce behaviorId comparedAt s).map
        BaselineRegistration.artifactId
  noBaseline : ∀ actorRef result s',
    (compareToBaseline nfc candidateArtifactId comparedAt actorRef).run s = (.ok result, s') →
      (result.status = .noBaseline ↔ ∀ b, ¬ InForce s behaviorId comparedAt b)

theorem not_usesLatest_of_none {s : Store} {candidateArtifactId behaviorId comparedAt : String}
    (hforce : ∃ b, InForce s behaviorId comparedAt b)
    (hnone : baselineInForce behaviorId comparedAt s = none) :
    ¬ UsesLatest nfc s candidateArtifactId behaviorId comparedAt := by
  intro huses
  have hselected := huses.selected
  rw [hnone] at hselected
  obtain ⟨b, hb⟩ := hforce
  exact hselected b hb

/-- **The latest baseline is compared** exactly when the spelling of `compared_at` is on the same
side of every registration for the behaviour as its canonical form. -/
theorem compareToBaseline_uses_latest_iff (nfc : Nfc) (sys : System Store StoreError Unit)
    (h : Reachable nfc sys) (candidateArtifactId behaviorId comparedAt canonical : String)
    (hcandidate : Candidate nfc sys.state candidateArtifactId behaviorId)
    (hat : canonicalTimestamp comparedAt = some canonical) :
    UsesLatest nfc sys.state candidateArtifactId behaviorId comparedAt ↔
      SameSide sys.state behaviorId comparedAt canonical := by
  have hdated := baselinesDated_of_reachable h
  obtain ⟨candidate, payload, hfound, -, hbehavior⟩ := hcandidate.found
  refine ⟨fun huses => sameSide_of_latestInForce hdated hat huses.selected, fun hside => ?_⟩
  have hlatest := latestInForce_of_sameSide hdated hat hside
  -- whatever a comparison returns is about the candidate that was found
  have hresult : ∀ {actorRef result s'},
      (compareToBaseline nfc candidateArtifactId comparedAt actorRef).run sys.state =
        (.ok result, s') →
      result.baselineArtifactId = (baselineInForce behaviorId comparedAt sys.state).map
        BaselineRegistration.artifactId ∧
      (result.status = .noBaseline ↔ baselineInForce behaviorId comparedAt sys.state = none) := by
    intro actorRef result s' hrun
    obtain ⟨_, _, behaviorId', hget, hbehavior', hartifact, hstatus, -⟩ :=
      compareToBaseline_eq_ok hrun
    rw [hget] at hfound
    cases hfound
    cases hbehavior.symm.trans hbehavior'
    exact ⟨hartifact, hstatus⟩
  refine ⟨hlatest, fun actorRef result s' hrun => (hresult hrun).1,
    fun actorRef result s' hrun => ?_⟩
  · rw [(hresult hrun).2]
    cases hquery : baselineInForce behaviorId comparedAt sys.state with
    | none =>
      rw [hquery] at hlatest
      exact iff_of_true rfl hlatest
    | some used =>
      rw [hquery] at hlatest
      exact iff_of_false (by simp) fun hnone => hnone used hlatest.1

theorem CanonicalSpelling.sameSide {s : Store} {behaviorId comparedAt canonical : String}
    (h : CanonicalSpelling comparedAt) (hat : canonicalTimestamp comparedAt = some canonical) :
    SameSide s behaviorId comparedAt canonical := by
  intro b _ _
  rw [Option.some.inj (h.symm.trans hat)]

/-! ### A baseline registered at midnight -/

def paySpec : ScenarioSpec where
  ref := "spec-1"
  behaviorId := "behavior-1"
  sourceSymbolId := "symbol-1"
  symbolLineageId := "lineage-1"
  artifactRevisionId := "revision-1"
  other := ⟨[("procedure_identity_ref", .str "APP.PAY"), ("action", .str "CALL APP.PAY"),
    ("preconditions", .list []), ("expected_effects", .list []),
    ("alternative_or_conditional_effects", .list []), ("evidence_refs", .list [])], rfl⟩
  contentDigest := "sha256:b210feb57ba3ace4c72651bfa8edecd2ab027d0a46581f18d5ea0d5ce9fd4580"
  platformGovernanceRef := none

def payBatch : ScenarioSpecBatchResult where
  procedureIdentityRef := "APP.PAY"
  sourceSymbolId := "symbol-1"
  symbolLineageId := "lineage-1"
  classificationObservations := []
  effectClosures := []
  resolutionVectors := []
  budgetReports := []
  scenarioSpecs := [paySpec]
  other := .none
  contentDigest := "sha256:450155bf3f87a0e36a74e8a290a6be4a17464781366dcf72e194ad054e3c0e5f"

def paySpecId : String := artifactIdOf .scenarioSpec "spec-1" paySpec.contentDigest

/-- The spec is admitted and made the baseline of its own behaviour. -/
def payRegistered : Store := Store.after asciiNfc
  [.admitScenarioBatch payBatch "2026-07-28T00:00:00.000000Z" "actor-1",
   .registerBaseline paySpecId "authority-1" "2026-07-29T00:00:00Z" "actor-1"]

theorem payRegistered_reachable : ∃ clients, Reachable asciiNfc ⟨payRegistered, clients⟩ :=
  reachable_after asciiNfc _

/-- One in the morning in UTC, two hours further west. -/
def lateEvening : String := "2026-07-28T23:00:00-02:00"

theorem lateEvening_canonical :
    canonicalTimestamp lateEvening = some "2026-07-29T01:00:00.000000Z" := by decide +kernel

/-- The run, evaluated: the spec is found, the registration has started, and the query at
`lateEvening` finds nothing. -/
theorem payRegistered_evaluated :
    (((getArtifact asciiNfc paySpecId).run payRegistered).1.map fun found =>
      (found.1.artifactType, found.1.behaviorId)) = .ok (.scenarioSpec, some "behavior-1") ∧
    (payRegistered.baselines.any fun b => b.behaviorId = "behavior-1" ∧
      b.effectiveFrom ≤ "2026-07-29T01:00:00.000000Z") = true ∧
    (baselineInForce "behavior-1" lateEvening payRegistered).isNone = true ∧
    ((compareToBaseline asciiNfc paySpecId lateEvening "actor-1").run payRegistered).1.map
      BaselineComparisonResult.status = .ok .noBaseline := by
  decide +kernel

theorem payRegistered_candidate : Candidate asciiNfc payRegistered paySpecId "behavior-1" := by
  refine ⟨?_, by decide⟩
  have hread := payRegistered_evaluated.1
  revert hread
  generalize ((getArtifact asciiNfc paySpecId).run payRegistered).1 = found
  cases found with
  | error e => exact fun hread => nomatch hread
  | ok found =>
    intro hread
    simp only [Except.map, Except.ok.injEq, Prod.mk.injEq] at hread
    exact ⟨found.1, found.2, rfl, hread.1, hread.2⟩

theorem payRegistered_inForce : ∃ b, InForce payRegistered "behavior-1" lateEvening b := by
  obtain ⟨clients, hreachable⟩ := payRegistered_reachable
  obtain ⟨b, hmem, hb⟩ := List.any_eq_true.mp payRegistered_evaluated.2.1
  have hdated := baselinesDated_of_reachable hreachable
  dsimp only at hdated
  exact ⟨b, (inForce_iff hdated lateEvening_canonical).2 ⟨hmem, of_decide_eq_true hb⟩⟩

/-- At noon in UTC, when the baseline is in force. -/
theorem compareToBaseline_uses_latest_at_noon :
    ∃ sys, Reachable asciiNfc sys ∧
      UsesLatest asciiNfc sys.state paySpecId "behavior-1" "2026-07-29T12:00:00.000000Z" := by
  obtain ⟨clients, hreachable⟩ := payRegistered_reachable
  have hat : canonicalTimestamp "2026-07-29T12:00:00.000000Z" =
    some "2026-07-29T12:00:00.000000Z" := by
    decide +kernel
  refine ⟨⟨payRegistered, clients⟩, hreachable, ?_⟩
  have hiff := compareToBaseline_uses_latest_iff asciiNfc _ hreachable paySpecId "behavior-1"
    "2026-07-29T12:00:00.000000Z" "2026-07-29T12:00:00.000000Z"
  dsimp only at hiff ⊢
  exact (hiff payRegistered_candidate hat).2 (CanonicalSpelling.sameSide hat hat)

/-- The registration is in force at that instant, and the comparison reports that there is none. -/
theorem compareToBaseline_misses_baseline :
    (∃ clients, Reachable asciiNfc ⟨payRegistered, clients⟩) ∧
      Candidate asciiNfc payRegistered paySpecId "behavior-1" ∧
      ((compareToBaseline asciiNfc paySpecId lateEvening "actor-1").run payRegistered).1.map
        BaselineComparisonResult.status = .ok .noBaseline ∧
      (∃ b, InForce payRegistered "behavior-1" lateEvening b) ∧
      ¬ UsesLatest asciiNfc payRegistered paySpecId "behavior-1" lateEvening :=
  ⟨payRegistered_reachable, payRegistered_candidate, payRegistered_evaluated.2.2.2,
    payRegistered_inForce, not_usesLatest_of_none payRegistered_inForce
      (Option.isNone_iff_eq_none.mp payRegistered_evaluated.2.2.1)⟩

end AtlasDb.Governance
