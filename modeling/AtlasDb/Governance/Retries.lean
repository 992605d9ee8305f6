import AtlasDb.Lib.Replay
import AtlasDb.Governance.Records

/-!
# Performing an operation twice

A batch admission, a registration or a binding looks for its row before it writes it, so performed
again it finds what it wrote: it returns the same identifiers and changes nothing. The lookup is a
session of its own, so the same holds of two clients at once only as long as the answer of the
lookup stands until the write; else the second INSERT breaks a UNIQUE constraint.
`compare_to_baseline` logs another event each time, and `amend_scenario_spec` inserts its row again.
-/

namespace AtlasDb.Governance

open Core Core.Timestamp Lib

variable {nfc : Nfc}

/-! ## Stores in the order of their growth -/

instance : PartialOrder Store where
  le := Store.Extends
  le_refl := Store.Extends.refl
  le_trans _ _ _ h h' :=
    ⟨h.artifacts.trans h'.artifacts, h.baselines.trans h'.baselines,
      h.comparisons.trans h'.comparisons, h.amendments.trans h'.amendments,
      h.platformDecisions.trans h'.platformDecisions, h.certifications.trans h'.certifications,
      h.auditEvents.trans h'.auditEvents⟩
  le_antisymm s t h h' := by
    cases s
    cases t
    rw [Store.mk.injEq]
    exact ⟨h.artifacts.eq_of_length_le h'.artifacts.length_le,
      h.baselines.eq_of_length_le h'.baselines.length_le,
      h.comparisons.eq_of_length_le h'.comparisons.length_le,
      h.amendments.eq_of_length_le h'.amendments.length_le,
      h.platformDecisions.eq_of_length_le h'.platformDecisions.length_le,
      h.certifications.eq_of_length_le h'.certifications.length_le,
      h.auditEvents.eq_of_length_le h'.auditEvents.length_le⟩

theorem find?_of_isPrefix {ρ : Type} {p : ρ → Bool} {xs ys : List ρ} {x : ρ} (h : xs <+: ys)
    (hx : xs.find? p = some x) : ys.find? p = some x := by
  obtain ⟨zs, rfl⟩ := h
  rw [List.find?_append, hx]
  rfl

variable {row : ArtifactRow}

theorem artifact?_of_le {s t : Store} {artifactId : String} (h : s ≤ t)
    (hrow : s.artifact? artifactId = some row) : t.artifact? artifactId = some row :=
  find?_of_isPrefix h.artifacts hrow

/-! ## Admitting a model -/

/-- Two admissions of the same model at the same time; they may differ in what they say of it. -/
structure Admission.SameModel (a' a : Admission) : Prop where
  modelName : a'.modelName = a.modelName
  model : a'.model = a.model
  artifactType : a'.artifactType = a.artifactType
  artifactRef : a'.artifactRef = a.artifactRef
  createdAt : a'.createdAt = a.createdAt

theorem Admission.SameModel.refl (a : Admission) : a.SameModel a := ⟨rfl, rfl, rfl, rfl, rfl⟩

variable {record : StoredArtifactRecord}

theorem admitModel_session {a : Admission} {s s₁ : Store}
    {idempotent : Bool} (h : (admitModel nfc a).run s = (.ok (record, idempotent), s₁)) :
    ∃ contentDigest payloadDigest createdAt payload, ∀ a' : Admission, a'.SameModel a →
      admitModel nfc a' =
        admitSession nfc a' (a'.record contentDigest payloadDigest createdAt) payload := by
  obtain ⟨contentDigest, hcontent, h⟩ := run_reads_bind_ok (ReadsOnly.ofExcept _) h
  obtain ⟨payload, hpayload, h⟩ := run_reads_bind_ok (ReadsOnly.ofExcept _) h
  obtain ⟨payloadDigest, hdigest, h⟩ := run_reads_bind_ok (ReadsOnly.ofExcept _) h
  obtain ⟨validated, hvalid, -⟩ := run_reads_bind_ok (ReadsOnly.ofExcept _) h
  have hrecord := ofExcept_run_ok hvalid
  simp only [StoredArtifactRecord.validated, Except.bind_eq_ok, timestampField_eq_ok] at hrecord
  obtain ⟨createdAt, hcreated, -⟩ := hrecord
  refine ⟨contentDigest, payloadDigest, createdAt, payload.sortKeys, fun a' ha' => ?_⟩
  have hcontent' := ofExcept_run_ok hcontent
  have hpayload' := ofExcept_run_ok hpayload
  have hdigest' := ofExcept_run_ok hdigest
  rw [← ha'.modelName, ← ha'.model] at hcontent'
  rw [← ha'.model] at hpayload' hdigest'
  have hcreated' : canonicalTimestamp a'.createdAt = some createdAt :=
    (congrArg canonicalTimestamp ha'.createdAt).trans hcreated
  have hvalid' : StoredArtifactRecord.validated
    (a'.record contentDigest payloadDigest a'.createdAt) =
      .ok (a'.record contentDigest payloadDigest createdAt) := by
    simp [StoredArtifactRecord.validated, timestampField, Admission.record, hcreated', bind,
      Except.bind]
  unfold admitModel
  rw [hcontent', hpayload', hdigest']
  show Client.ofExcept (StoredArtifactRecord.validated _) >>= _ = _
  rw [hvalid']
  rfl

section Follows

variable {C : Set Store}

/-- What a session that was not interrupted has done. -/
theorem solo_admitSession {a : Admission} {payload : Json}
    {s s₁ : Store} {result : StoredArtifactRecord × Bool}
    (hsolo : (admitSession nfc a record payload).Solo C s)
    (hrun : (admitSession nfc a record payload).run s = (.ok result, s₁)) :
    s₁ ∈ C ∧ s ≤ s₁ ∧ (∀ t ∈ C, s ≤ t → t = s ∨ s₁ ≤ t) ∧
      (∀ row, s.artifact? record.artifactId = some row → s₁ = s) ∧
      (s.artifact? record.artifactId = none →
        storeArtifact nfc a record payload s = .ok ((record, false), s₁)) ∧
      result.1 = record ∧ ∃ row, s₁.artifact? record.artifactId = some row ∧
        row.contentDigest = record.contentDigest ∧ row.payloadDigest = record.payloadDigest := by
  obtain ⟨existing, s', hquery, -, -, hnext⟩ := hsolo.bind
  obtain ⟨rfl, rfl⟩ : s.artifact? record.artifactId = existing ∧ s = s' := by
    have hpair := Prod.mk.inj hquery
    exact ⟨Except.ok.inj hpair.1, hpair.2⟩
  rw [show (admitSession nfc a record payload) = Client.transaction (select fun s : Store =>
    s.artifacts.find? fun row => row.artifactId = record.artifactId) >>= _ from rfl,
    Client.run_bind, hquery] at hrun
  dsimp only at hrun
  revert hrun hnext
  cases hfind : s.artifact? record.artifactId with
  | some row =>
    intro hrun hnext
    dsimp only at hnext hrun
    split at hrun
    · cases hrun
    · next hsame =>
        cases hrun
        obtain ⟨hcd, hpd⟩ := not_or.1 hsame
        rw [if_neg hsame] at hnext
        exact ⟨hnext, le_rfl, fun t _ hst => .inr hst, fun _ _ => rfl, fun hnone => (nomatch hnone),
          rfl, row, hfind, not_ne_iff.1 hcd, not_ne_iff.1 hpd⟩
  | none =>
    intro hrun hnext
    obtain ⟨-, r, s'', hbody, hle, hcover, hmem⟩ := hnext
    have hstore := transaction_run_ok hrun
    rw [hbody] at hstore
    cases hstore
    have hvalue : result = (record, false) := by
      obtain ⟨u, s₂, -, hrest⟩ := Txn.bind_eq_ok.mp hbody
      obtain ⟨event, s₃, -, hrest⟩ := Txn.bind_eq_ok.mp hrest
      cases hrest
      rfl
    subst hvalue
    refine ⟨hmem, hle, hcover, fun row hrow => (nomatch hrow), fun _ => hbody, rfl, ?_⟩
    obtain ⟨-, contentDigest, canonical, rfl⟩ := insertThenAppend_eq_ok hbody
    exact ⟨_, artifact?_append hfind rfl rfl, rfl, rfl⟩

/-- A second admission follows the first. -/
theorem follows_admitModel {a a' : Admission} {s s₁ lo : Store}
    {idempotent : Bool} (hsolo : (admitModel nfc a).Solo C s)
    (hrun : (admitModel nfc a).run s = (.ok (record, idempotent), s₁)) (hmodel : a'.SameModel a)
    (hlo : s ≤ lo) (hsame : lo = s → a' = a) :
    (admitModel nfc a').Follows C (fun lo' r => (s₁ ≤ lo' ∧ lo' ∈ C) ∧
      r.1.artifactId = record.artifactId ∧ (a' = a → r.1 = record)) lo fun _ => True := by
  obtain ⟨contentDigest, payloadDigest, createdAt, payload, hsession⟩ := admitModel_session hrun
  rw [hsession a (.refl a)] at hsolo hrun
  rw [hsession a' hmodel]
  obtain ⟨hmem, hle, hcover, hfound, hstore, rfl, row, hrow, hcd, hpd⟩ :=
    solo_admitSession hsolo hrun
  have hid : (a'.record contentDigest payloadDigest createdAt).artifactId =
      (a.record contentDigest payloadDigest createdAt).artifactId := by
    show artifactIdOf a'.artifactType a'.artifactRef contentDigest = _
    rw [hmodel.artifactType, hmodel.artifactRef]
    rfl
  have hlater : ∀ t ∈ C, s₁ ≤ t → ∃ x r, t.artifact? (a'.record contentDigest payloadDigest
      createdAt).artifactId = some x ∧ (if x.contentDigest ≠ contentDigest ∨
        x.payloadDigest ≠ payloadDigest
        then Client.raise (.governance ("Artifact identity collision: "
          ++ (a'.record contentDigest payloadDigest createdAt).artifactId))
        else pure (a'.record contentDigest payloadDigest createdAt, true) : StoreClient _) =
          .ret r ∧
      r.1.artifactId = (a.record contentDigest payloadDigest createdAt).artifactId ∧
        (a' = a → r.1 = a.record contentDigest payloadDigest createdAt) := by
    intro t _ hst
    refine ⟨row, (a'.record contentDigest payloadDigest createdAt, true), ?_, ?_, hid, ?_⟩
    · rw [hid]
      exact artifact?_of_le hst hrow
    · exact if_neg (not_or.2 ⟨not_ne_iff.2 hcd, not_ne_iff.2 hpd⟩)
    · rintro rfl
      rfl
  refine Client.Follows.checkThenInsert
    (fun t => t.artifact? (a'.record contentDigest payloadDigest createdAt).artifactId)
    (fun _ => rfl) rfl hmem hcover hle hlo hlater ?_ ?_
  · intro hnone hlos
    obtain rfl := hsame hlos
    exact ⟨_, hstore hnone, rfl, fun _ => rfl⟩
  · intro x hx
    rw [hid] at hx
    exact hfound x hx

/-- Wherever on the chain of `c` the store has got, `c'` goes on to where `c` ends, with a result
like that of `c`. -/
def Retraces (C : Set Store) {α : Type} (Like : α → α → Prop) (c c' : StoreClient α) : Prop :=
  ∀ s s₁ value lo, c.Solo C s → c.run s = (.ok value, s₁) → s ≤ lo → lo ∈ C →
    c'.Follows C (fun lo' value' => (s₁ ≤ lo' ∧ lo' ∈ C) ∧ Like value' value) lo fun _ => True

theorem Retraces.bind {α β : Type} {Like : α → α → Prop} {Like' : β → β → Prop}
    {c c' : StoreClient α} {f f' : α → StoreClient β} (hc : Retraces C Like c c')
    (hf : ∀ a a', Like a' a → Retraces C Like' (f a) (f' a')) :
    Retraces C Like' (c >>= f) (c' >>= f') := by
  intro s s₁ value lo hsolo hrun hlo hmem
  obtain ⟨a, s₂, hfirst, hsoloFirst, -, hsoloRest⟩ := hsolo.bind
  have hrest : (f a).run s₂ = (.ok value, s₁) := by
    rw [Client.run_bind, hfirst] at hrun
    exact hrun
  refine (hc s s₂ a lo hsoloFirst hfirst hlo hmem).bind fun a' lo' _ hlike => ?_
  exact hf a a' hlike.2 s₂ s₁ value lo' hsoloRest hrest hlike.1.1 hlike.1.2

theorem Retraces.ret {α : Type} {Like : α → α → Prop} {a a' : α} (h : Like a' a) :
    Retraces C Like (pure a) (pure a') := by
  intro s s₁ value lo _ hrun hlo hmem
  cases hrun
  exact ⟨⟨hlo, hmem⟩, h⟩

theorem Retraces.ofExcept_bind {α β : Type} {Like : β → β → Prop} {x : Except StoreError α}
    {f : α → StoreClient β} (h : ∀ a, x = .ok a → Retraces C Like (f a) (f a)) :
    Retraces C Like (Client.ofExcept x >>= f) (Client.ofExcept x >>= f) := by
  cases x with
  | ok a => exact h a rfl
  | error e => exact fun s s₁ value lo hsolo => hsolo.elim

/-! ## Batches -/

/-- The identifiers a batch admission returns. -/
def AdmissionResult.ids (r : AdmissionResult) : List String :=
  r.records.map StoredArtifactRecord.artifactId

/-- How an item is prepared on the chain: as one client alone prepares it if the store is where that
client found it, and for the same model in any case. -/
def Prepares (C : Set Store) (admission : StoreClient Admission) : Prop :=
  ∀ s a lo, admission.Solo C s → admission.run s = (.ok a, s) → s ≤ lo → lo ∈ C →
    admission.Follows C (fun lo' a' => (s ≤ lo' ∧ lo' ∈ C) ∧ a'.SameModel a ∧ (lo' = s → a' = a)) lo
      fun _ => True

theorem prepares_pure (a : Admission) : Prepares C (pure a) := by
  intro s a' lo _ hrun hlo hmem
  cases hrun
  exact ⟨⟨hlo, hmem⟩, .refl a, fun _ => rfl⟩

/-- The results so far may differ in what was found to be stored. -/
def SameIds (r' r : AdmissionResult) : Prop := r'.ids = r.ids

theorem retraces_admitEach {α : Type} {admission : α → StoreClient Admission}
    (hprepares : ∀ item, Prepares C (admission item)) (hreads : ∀ item, ReadsOnly (admission item))
    (items : List α) {result result' : AdmissionResult} (hids : SameIds result' result) :
    Retraces C SameIds (admitEach nfc admission items result)
      (admitEach nfc admission items result') := by
  induction items generalizing result result' with
  | nil => exact .ret hids
  | cons item items ih =>
    intro s s₁ final lo hsolo hrun hlo hmem
    obtain ⟨a, hprepare, hrun⟩ := run_reads_bind_ok (hreads item) hrun
    obtain ⟨⟨record, idempotent⟩, s₂, hadmits, hrun⟩ := run_bind_ok hrun
    obtain ⟨_, _, hprepare', hsoloPrepare, -, hsolo⟩ := hsolo.bind
    cases hprepare.symm.trans hprepare'
    obtain ⟨_, _, hadmits', hsoloAdmit, -, hsolo⟩ := hsolo.bind
    cases hadmits.symm.trans hadmits'
    refine (hprepares item s a lo hsoloPrepare hprepare hlo hmem).bind fun a' lo' _ hprepared => ?_
    obtain ⟨⟨hlo', hmem'⟩, hmodel, hsame⟩ := hprepared
    refine (follows_admitModel hsoloAdmit hadmits hmodel hlo' hsame).bind fun r lo'' _
      hadmitted => ?_
    obtain ⟨⟨hlo'', hmem''⟩, hid, -⟩ := hadmitted
    refine ih ?_ s₂ s₁ final lo'' hsolo hrun hlo'' hmem''
    simp only [SameIds, AdmissionResult.ids, List.map_append, List.map_cons, List.map_nil] at hids ⊢
    rw [hids, hid]

theorem retraces_admitEach_pure {α : Type} {admission : α → Admission} (items : List α)
    {result result' : AdmissionResult} (hids : SameIds result' result) :
    Retraces C SameIds (admitEach nfc (fun item => pure (admission item)) items result)
      (admitEach nfc (fun item => pure (admission item)) items result') :=
  retraces_admitEach (fun item => prepares_pure (admission item)) (fun _ _ => rfl) items hids

theorem retraces_admitBatchModel (a : Admission) :
    Retraces C (fun r' r => r'.1 = r.1 ∧ SameIds r'.2 r.2) (admitBatchModel nfc a)
      (admitBatchModel nfc a) := by
  intro s s₁ value lo hsolo hrun hlo _
  obtain ⟨⟨record, idempotent⟩, s₂, hadmits, hrest⟩ := run_bind_ok hrun
  obtain ⟨_, _, hadmits', hsoloAdmit, -, -⟩ := hsolo.bind
  cases hadmits.symm.trans hadmits'
  cases hrest
  refine (follows_admitModel hsoloAdmit hadmits (.refl a) hlo fun _ => rfl).bind fun r
    lo' _ hr => ?_
  obtain ⟨hlo', -, hsame⟩ := hr
  obtain rfl := hsame rfl
  exact ⟨hlo', rfl, rfl⟩

/-! ### Items that take their identity from a `ScenarioSpec` -/

theorem follows_select {α β : Type} {query : Store → α} {f : α → StoreClient β}
    {R : Store → β → Prop} {lo : Store} {stands : Store → Prop}
    (h : ∀ t ∈ C, lo ≤ t → (f (query t)).Follows C R t fun _ => True) :
    (Client.transaction (select query) >>= f).Follows C R lo stands := by
  intro t ht hlo _
  exact ⟨query t, t, t, rfl, ht, le_rfl, hlo, le_rfl, (h t ht hlo).imp_stands fun _ _ => trivial⟩

/-- The rows `_scenario_identity` orders by their timestamp. -/
def specRows (scenarioSpecRef : String) (s : Store) : List ArtifactRow :=
  s.artifacts.filter fun row => row.artifactType = GovernanceArtifactType.scenarioSpec.value ∧
    row.artifactRef = scenarioSpecRef

def latestSpec (scenarioSpecRef : String) (s : Store) : Option ArtifactRow :=
  ((specRows scenarioSpecRef s).insertionSort fun a b => b.createdAt ≤ a.createdAt).head?

theorem mem_of_latestSpec {scenarioSpecRef : String} {s : Store}
    (h : latestSpec scenarioSpecRef s = some row) : row ∈ s.artifacts :=
  List.mem_of_mem_filter (head?_sortedDesc h).1

theorem latestSpec_of_le {scenarioSpecRef : String} {s t : Store}
    (h : latestSpec scenarioSpecRef s = some row) (hle : s ≤ t) :
    ∃ row', latestSpec scenarioSpecRef t = some row' := by
  have hmem : row ∈ specRows scenarioSpecRef t :=
    (hle.artifacts.filter _).subset (head?_sortedDesc h).1
  cases hlatest : latestSpec scenarioSpecRef t with
  | some row' => exact ⟨row', rfl⟩
  | none =>
    rw [latestSpec, List.head?_eq_none_iff] at hlatest
    rw [← List.mem_insertionSort fun a b : ArtifactRow => b.createdAt ≤ a.createdAt,
      hlatest] at hmem
    cases hmem

theorem readArtifact_of_mem {t : Store} (ht : t.ArtifactsReadable nfc) (hrow : row ∈ t.artifacts) :
    ∃ found, readArtifact nfc row.artifactId (t.artifact? row.artifactId) = .ok found := by
  cases hfind : t.artifact? row.artifactId with
  | none => exact absurd rfl (artifact?_none hfind row hrow)
  | some stored =>
    have hreadable := ht stored (artifact?_some hfind).1
    obtain ⟨record, hrecord⟩ := hreadable.toRecord
    exact ⟨(record, stored.payloadJson), by
      simp [readArtifact, hrecord, hreadable.payload, bind, Except.bind]⟩

theorem follows_scenarioIdentity (hC : ∀ t ∈ C, t.ArtifactsReadable nfc) {scenarioSpecRef : String}
    {identity : StoredArtifactRecord} {s lo : Store}
    (hrun : (scenarioIdentity nfc scenarioSpecRef).run s = (.ok identity, s)) (hlo : s ≤ lo) :
    (scenarioIdentity nfc scenarioSpecRef).Follows C
      (fun lo' identity' => (s ≤ lo' ∧ lo' ∈ C) ∧ (lo' = s → identity' = identity)) lo
      fun _ => True := by
  obtain ⟨first, hfirst⟩ : ∃ row, latestSpec scenarioSpecRef s = some row := by
    cases hfirst : latestSpec scenarioSpecRef s with
    | some row => exact ⟨row, rfl⟩
    | none =>
      obtain ⟨found, hquery, hrest⟩ := run_reads_bind_ok (fun _ => rfl) hrun
      have hfound : latestSpec scenarioSpecRef s = found := Except.ok.inj (Prod.mk.inj hquery).1
      rw [hfirst] at hfound
      subst hfound
      cases hrest
  refine follows_select fun t ht hlot => ?_
  obtain ⟨row, hrow⟩ := latestSpec_of_le hfirst (hlo.trans hlot)
  have hquery : ((t.artifacts.filter fun row =>
      row.artifactType = GovernanceArtifactType.scenarioSpec.value ∧
        row.artifactRef = scenarioSpecRef).insertionSort
      fun a b => b.createdAt ≤ a.createdAt).head? = some row := hrow
  rw [hquery]
  refine follows_select
    (f := fun found => Client.ofExcept (readArtifact nfc row.artifactId found) >>=
    fun r => pure r.1) fun u hu htu => ?_
  obtain ⟨found, hfound⟩ := readArtifact_of_mem (hC u hu)
    (htu.artifacts.subset (mem_of_latestSpec hrow))
  refine Client.Follows.ofExcept_bind hfound ⟨⟨(hlo.trans hlot).trans htu, hu⟩, fun hus => ?_⟩
  subst hus
  -- the store has not moved since `s`, so this is what one client alone reads
  obtain rfl : t = u := le_antisymm htu (hlo.trans hlot)
  obtain ⟨first', hfirst', hrest⟩ := run_reads_bind_ok (fun _ => rfl) hrun
  obtain rfl : some row = first' := hrow.symm.trans (Except.ok.inj (Prod.mk.inj hfirst').1)
  obtain ⟨alone, hget, hrest⟩ := run_reads_bind_ok (readsOnly_getArtifact nfc _) hrest
  obtain ⟨stored, hstored, hread⟩ := run_reads_bind_ok (fun _ => rfl) hget
  obtain rfl : t.artifact? row.artifactId = stored := Except.ok.inj (Prod.mk.inj hstored).1
  rw [ofExcept_run_ok hread] at hfound
  cases hfound
  cases hrest
  rfl

theorem prepares_dependentAdmission (hC : ∀ t ∈ C, t.ArtifactsReadable nfc) {modelName : String}
    {model : SpecDependent → ArtifactModel} {artifactType : GovernanceArtifactType}
    {parent : StoredArtifactRecord} {createdAt actorRef : String} (item : SpecDependent) :
    Prepares C
      (dependentAdmission nfc modelName model artifactType parent createdAt actorRef item) := by
  intro s a lo _ hrun hlo _
  obtain ⟨identity, hidentity, hrest⟩ :=
    run_reads_bind_ok (readsOnly_scenarioIdentity item.scenarioSpecRef) hrun
  cases hrest
  refine (follows_scenarioIdentity hC hidentity hlo).bind fun identity' lo' _ hfollows => ?_
  obtain ⟨hlo', hsame⟩ := hfollows
  refine ⟨hlo', ⟨rfl, rfl, rfl, rfl, rfl⟩, fun hlos => ?_⟩
  rw [hsame hlos]

/-! ### The batches -/

theorem retraces_admitScenarioBatch (batch : ScenarioSpecBatchResult)
    (createdAt actorRef : String) :
    Retraces C SameIds (admitScenarioBatch nfc batch createdAt actorRef)
      (admitScenarioBatch nfc batch createdAt actorRef) := by
  refine (retraces_admitBatchModel _).bind ?_
  rintro ⟨parent, result⟩ ⟨_, result'⟩ ⟨rfl, hids⟩
  refine (retraces_admitEach_pure _ hids).bind fun r r' hids => ?_
  refine (retraces_admitEach_pure _ hids).bind fun r r' hids => ?_
  refine (retraces_admitEach_pure _ hids).bind fun r r' hids => ?_
  refine (retraces_admitEach_pure _ hids).bind fun r r' hids => ?_
  exact retraces_admitEach_pure _ hids

theorem retraces_admitBddBatch (hC : ∀ t ∈ C, t.ArtifactsReadable nfc) (batch : BddCompilationBatch)
    (createdAt actorRef : String) :
    Retraces C SameIds (admitBddBatch nfc batch createdAt actorRef)
      (admitBddBatch nfc batch createdAt actorRef) := by
  refine (retraces_admitBatchModel _).bind ?_
  rintro ⟨parent, result⟩ ⟨_, result'⟩ ⟨rfl, hids⟩
  refine (retraces_admitEach_pure _ hids).bind fun r r' hids => ?_
  refine (retraces_admitEach_pure _ hids).bind fun r r' hids => ?_
  exact retraces_admitEach (prepares_dependentAdmission hC) readsOnly_dependentAdmission _ hids

theorem retraces_admitRuntimeBatch (hC : ∀ t ∈ C, t.ArtifactsReadable nfc)
    (batch : RuntimeVerificationBatch) (createdAt actorRef : String) :
    Retraces C SameIds (admitRuntimeBatch nfc batch createdAt actorRef)
      (admitRuntimeBatch nfc batch createdAt actorRef) := by
  refine (retraces_admitBatchModel _).bind ?_
  rintro ⟨parent, result⟩ ⟨_, result'⟩ ⟨rfl, hids⟩
  refine (retraces_admitEach_pure _ hids).bind fun r r' hids => ?_
  exact retraces_admitEach (prepares_dependentAdmission hC) readsOnly_dependentAdmission _ hids

/-! ## Registrations and bindings -/

theorem retraces_getArtifact (artifactId : String) :
    Retraces C Eq (getArtifact nfc artifactId) (getArtifact nfc artifactId) := by
  intro s s₁ value lo _ hrun hlo _
  obtain ⟨stored, hstored, hread⟩ := run_reads_bind_ok (fun _ => rfl) hrun
  obtain rfl : s.artifact? artifactId = stored := Except.ok.inj (Prod.mk.inj hstored).1
  obtain rfl : s = s₁ := by
    have hsame := ReadsOnly.ofExcept (readArtifact nfc artifactId (s.artifact? artifactId)) s
    rw [hread] at hsame
    exact hsame.symm
  replace hread := ofExcept_run_ok hread
  refine follows_select fun t ht hlot => ?_
  have hrow : t.artifact? artifactId = s.artifact? artifactId := by
    cases hfind : s.artifact? artifactId with
    | none =>
      rw [hfind] at hread
      cases hread
    | some row => exact artifact?_of_le (hlo.trans hlot) hfind
  have hquery : (t.artifacts.find? fun row => row.artifactId = artifactId) =
    s.artifact? artifactId :=
    hrow
  rw [hquery, hread]
  exact ⟨⟨hlo.trans hlot, ht⟩, rfl⟩

/-- What `_ensure_idempotent_binding` decides on, and the transaction if there is no row. -/
def unlessStored {α : Type} (query : Store → Option String) (keyValue contentDigest : String)
    (value : α) (write : StoreTxn α) : StoreClient α := do
  let stored ← Client.transaction (select query)
  if ← Client.ofExcept (ensureIdempotentBinding keyValue contentDigest stored) then pure value
  else Client.transaction write

/-- A write behind its query retraces itself. -/
theorem retraces_unlessStored {α : Type} {query : Store → Option String}
    {keyValue contentDigest : String} {value : α} {write : StoreTxn α}
    (hquery : ∀ {s t x}, s ≤ t → query s = some x → query t = some x)
    (hwrite : ∀ {s a s'}, write s = .ok (a, s') → a = value ∧ query s' = some contentDigest) :
    Retraces C Eq (unlessStored query keyValue contentDigest value write)
      (unlessStored query keyValue contentDigest value write) := by
  intro s s₁ result lo hsolo hrun hlo _
  -- alone, the client finds its digest, or writes its row
  have halone : s₁ ∈ C ∧ s ≤ s₁ ∧ (∀ t ∈ C, s ≤ t → t = s ∨ s₁ ≤ t) ∧ result = value ∧
      query s₁ = some contentDigest ∧ (∀ x, query s = some x → s₁ = s) ∧
      (query s = none → write s = .ok (value, s₁)) := by
    obtain ⟨stored, s', hstored, -, -, hnext⟩ := hsolo.bind
    obtain ⟨rfl, rfl⟩ : query s = stored ∧ s = s' := by
      have hpair := Prod.mk.inj hstored
      exact ⟨Except.ok.inj hpair.1, hpair.2⟩
    obtain ⟨stored', hstored', hrun⟩ := run_reads_bind_ok (fun _ => rfl) hrun
    obtain rfl : query s = stored' := Except.ok.inj (Prod.mk.inj hstored').1
    obtain ⟨found, hensure, hnext⟩ := hnext.ofExcept_bind
    rw [hensure] at hrun
    revert hrun hnext
    cases hfind : query s with
    | some digest =>
      rw [hfind, ensureIdempotentBinding] at hensure
      split at hensure
      · cases hensure
      · next hsame =>
          cases hensure
          intro hrun hnext
          cases hrun
          exact ⟨hnext, le_rfl, fun t _ hst => .inr hst, rfl, by rw [hfind, not_ne_iff.1 hsame],
            fun _ _ => rfl, fun hnone => absurd hnone (Option.some_ne_none _)⟩
    | none =>
      rw [hfind] at hensure
      cases hensure
      intro hrun hnext
      obtain ⟨-, r, s'', hbody, hle, hcover, hmem⟩ := hnext
      have hstore := transaction_run_ok hrun
      rw [hbody] at hstore
      cases hstore
      obtain ⟨rfl, hafter⟩ := hwrite hbody
      exact ⟨hmem, hle, hcover, rfl, hafter, fun _ hx => absurd hx (Option.some_ne_none _).symm,
        fun _ => hbody⟩
  obtain ⟨hmem, hle, hcover, rfl, hafter, hfound, hstore⟩ := halone
  refine Client.Follows.checkThenInsert query (fun _ => rfl) rfl hmem hcover hle hlo ?_
    (fun hnone _ => ⟨result, hstore hnone, rfl⟩) hfound
  intro t _ hst
  refine ⟨contentDigest, result, hquery hst hafter, ?_, rfl⟩
  have hensure : ensureIdempotentBinding keyValue contentDigest (some contentDigest) = .ok true :=
    if_neg (not_ne_iff.2 rfl)
  show (Client.ofExcept (ensureIdempotentBinding keyValue contentDigest (some contentDigest)) >>=
    fun found => if found = true then pure result else Client.transaction write) = .ret result
  rw [hensure]
  rfl

theorem digestOf_of_le {ρ : Type} {rows rows' : List ρ} {p : ρ → Bool} {digest : ρ → String}
    {x : String} (h : rows <+: rows') (hx : (rows.find? p).map digest = some x) :
    (rows'.find? p).map digest = some x := by
  obtain ⟨row, hrow, rfl⟩ := Option.map_eq_some_iff.1 hx
  rw [find?_of_isPrefix h hrow]
  rfl

theorem find?_append_new {ρ : Type} {rows : List ρ} {row : ρ} {p : ρ → Bool}
    (hnew : (!rows.any p) = true) (hrow : p row = true) : (rows ++ [row]).find? p = some row := by
  have hnone : rows.find? p = none := by
    rw [List.find?_eq_none]
    intro r hr hp
    rw [List.any_eq_true.2 ⟨r, hr, hp⟩] at hnew
    cases hnew
  rw [List.find?_append, hnone]
  simp [hrow]

theorem insertThenAppend_value {α : Type} {constraints : Store → List (Bool × String)}
    {add : Store → Store} {eventType : GovernanceEventType}
    {artifactId actorRef eventAt payloadDigest : String} {value a : α} {s s' : Store}
    (h : (do insertRow constraints add
             let _ ← appendEvent nfc eventType artifactId actorRef eventAt payloadDigest
             pure value : StoreTxn α) s = .ok (a, s')) : a = value := by
  obtain ⟨u, s₁, -, h⟩ := Txn.bind_eq_ok.mp h
  obtain ⟨event, s₂, -, h⟩ := Txn.bind_eq_ok.mp h
  cases h
  rfl

theorem retraces_registerBaseline (artifactId authorityRef effectiveFrom actorRef : String) :
    Retraces C Eq (registerBaseline nfc artifactId authorityRef effectiveFrom actorRef)
      (registerBaseline nfc artifactId authorityRef effectiveFrom actorRef) := by
  refine (retraces_getArtifact artifactId).bind ?_
  rintro ⟨record, payload⟩ _ rfl
  dsimp only
  split
  · split
    · exact fun s s₁ value lo hsolo => hsolo.elim
    · refine Retraces.ofExcept_bind fun contentDigest _ => ?_
      refine Retraces.ofExcept_bind fun registration _ => ?_
      refine retraces_unlessStored (fun hle hx => digestOf_of_le hle.baselines hx) ?_
      intro s a s' hbody
      refine ⟨insertThenAppend_value hbody, ?_⟩
      obtain ⟨hconstraints, _, _, rfl⟩ := insertThenAppend_eq_ok hbody
      rw [find?_append_new (hconstraints _ List.mem_cons_self) (by simp)]
      rfl
  · exact fun s s₁ value lo hsolo => hsolo.elim

theorem retraces_bindPlatformDecision (envelope : PlatformDecisionEnvelope) :
    Retraces C Eq (bindPlatformDecision nfc envelope) (bindPlatformDecision nfc envelope) := by
  refine Retraces.ofExcept_bind fun expected _ => ?_
  refine Retraces.ofExcept_bind fun _ _ => ?_
  refine (retraces_getArtifact envelope.artifactId).bind ?_
  rintro ⟨record, payload⟩ _ rfl
  dsimp only
  split
  · exact fun s s₁ value lo hsolo => hsolo.elim
  · refine retraces_unlessStored (fun hle hx => digestOf_of_le hle.platformDecisions hx) ?_
    intro s a s' hbody
    refine ⟨rfl, ?_⟩
    obtain ⟨hconstraints, _, _, rfl⟩ := insertThenAppend_eq_ok hbody
    rw [find?_append_new (hconstraints _ List.mem_cons_self) (by simp)]
    rfl

theorem retraces_bindCertification (envelope : CertificationEnvelope) :
    Retraces C Eq (bindCertification nfc envelope) (bindCertification nfc envelope) := by
  refine Retraces.ofExcept_bind fun expected _ => ?_
  refine Retraces.ofExcept_bind fun _ _ => ?_
  refine (retraces_getArtifact envelope.artifactId).bind ?_
  rintro ⟨record, payload⟩ _ rfl
  dsimp only
  split
  · exact fun s s₁ value lo hsolo => hsolo.elim
  · refine retraces_unlessStored (fun hle hx => digestOf_of_le hle.certifications hx) ?_
    intro s a s' hbody
    refine ⟨rfl, ?_⟩
    obtain ⟨hconstraints, _, _, rfl⟩ := insertThenAppend_eq_ok hbody
    rw [find?_append_new (hconstraints _ List.mem_cons_self) (by simp)]
    rfl

end Follows

/-! ## Operations -/

/-- An operation with the identifiers it returns. -/
def Operation.identifiers (nfc : Nfc) : Operation → StoreClient (List String)
  | admitScenarioBatch batch createdAt actorRef => do
      let result ← Governance.admitScenarioBatch nfc batch createdAt actorRef
      pure result.ids
  | admitBddBatch batch createdAt actorRef => do
      let result ← Governance.admitBddBatch nfc batch createdAt actorRef
      pure result.ids
  | admitRuntimeBatch batch createdAt actorRef => do
      let result ← Governance.admitRuntimeBatch nfc batch createdAt actorRef
      pure result.ids
  | registerBaseline artifactId authorityRef effectiveFrom actorRef => do
      let registration ← Governance.registerBaseline nfc artifactId authorityRef
        effectiveFrom actorRef
      pure [registration.registrationId]
  | compareToBaseline candidateArtifactId comparedAt actorRef => do
      let result ← Governance.compareToBaseline nfc candidateArtifactId comparedAt actorRef
      pure [result.comparisonId]
  | amendScenarioSpec originalArtifactId amendedSpec editorRef reason amendedAt => do
      let result ← Governance.amendScenarioSpec nfc originalArtifactId amendedSpec editorRef reason
        amendedAt
      pure [result.1.artifactId, result.2.amendmentId]
  | bindPlatformDecision envelope => do
      let validated ← Client.ofExcept envelope.validated
      Governance.bindPlatformDecision nfc validated
      pure []
  | bindCertification envelope => do
      let validated ← Client.ofExcept envelope.validated
      Governance.bindCertification nfc validated
      pure []

/-- The operations that look for their row before they write it. -/
def Operation.LooksFirst : Operation → Prop
  | compareToBaseline .. | amendScenarioSpec .. => False
  | _ => True

theorem Operation.preserves_identifiers {I : Store → Prop}
    (keep : TransactionsKeep nfc I fun _ => True) (op : Operation) :
    (op.identifiers nfc).Preserves I := by
  cases op with
  | admitScenarioBatch batch createdAt actorRef =>
    exact (preserves_admitScenarioBatch keep batch actorRef trivial).bind fun _ => trivial
  | admitBddBatch batch createdAt actorRef =>
    exact (preserves_admitBddBatch keep batch actorRef trivial).bind fun _ => trivial
  | admitRuntimeBatch batch createdAt actorRef =>
    exact (preserves_admitRuntimeBatch keep batch actorRef trivial).bind fun _ => trivial
  | registerBaseline artifactId authorityRef effectiveFrom actorRef =>
    exact (preserves_registerBaseline keep _ _ _ _).bind fun _ => trivial
  | compareToBaseline candidateArtifactId comparedAt actorRef =>
    exact (preserves_compareToBaseline keep _ _ _).bind fun _ => trivial
  | amendScenarioSpec originalArtifactId amendedSpec editorRef reason amendedAt =>
    exact (preserves_amendScenarioSpec keep _ _ _ _ trivial).bind fun _ => trivial
  | bindPlatformDecision envelope =>
    refine Client.Ensures.ofExcept_bind fun e he => ?_
    have hbind := preserves_bindPlatformDecision keep envelope
    rw [he] at hbind
    exact hbind.bind fun _ => trivial
  | bindCertification envelope =>
    refine Client.Ensures.ofExcept_bind fun e he => ?_
    have hbind := preserves_bindCertification keep envelope
    rw [he] at hbind
    exact hbind.bind fun _ => trivial

theorem Operation.retraces {C : Set Store} (hC : ∀ t ∈ C, t.ArtifactsReadable nfc) (op : Operation)
    (hop : op.LooksFirst) : Retraces C Eq (op.identifiers nfc) (op.identifiers nfc) := by
  cases op with
  | admitScenarioBatch batch createdAt actorRef =>
    exact (retraces_admitScenarioBatch batch createdAt actorRef).bind fun _ _ hids => .ret hids
  | admitBddBatch batch createdAt actorRef =>
    exact (retraces_admitBddBatch hC batch createdAt actorRef).bind fun _ _ hids => .ret hids
  | admitRuntimeBatch batch createdAt actorRef =>
    exact (retraces_admitRuntimeBatch hC batch createdAt actorRef).bind fun _ _ hids => .ret hids
  | registerBaseline artifactId authorityRef effectiveFrom actorRef =>
    refine (retraces_registerBaseline _ _ _ _).bind fun a a' heq => .ret ?_
    rw [heq]
  | compareToBaseline candidateArtifactId comparedAt actorRef => exact hop.elim
  | amendScenarioSpec originalArtifactId amendedSpec editorRef reason amendedAt => exact hop.elim
  | bindPlatformDecision envelope =>
    exact Retraces.ofExcept_bind fun e _ =>
      (retraces_bindPlatformDecision e).bind fun _ _ _ => .ret rfl
  | bindCertification envelope =>
    exact Retraces.ofExcept_bind fun e _ =>
      (retraces_bindCertification e).bind fun _ _ _ => .ret rfl

/-! ## The operations that write whatever they find -/

theorem insertThenAppend_grows {α : Type} {constraints : Store → List (Bool × String)}
    {add : Store → Store} {eventType : GovernanceEventType}
    {artifactId actorRef eventAt payloadDigest : String} {value a : α} {s s' : Store}
    (hadd : (add s).auditEvents = s.auditEvents)
    (h : (do insertRow constraints add
             let _ ← appendEvent nfc eventType artifactId actorRef eventAt payloadDigest
             pure value : StoreTxn α) s = .ok (a, s')) :
    s.auditEvents.length < s'.auditEvents.length := by
  obtain ⟨-, contentDigest, canonical, rfl⟩ := insertThenAppend_eq_ok h
  simp [hadd]

theorem Operation.logs_again {op : Operation} (hop : ¬ op.LooksFirst) {s s' : Store}
    {ids : List String} (h : (op.identifiers nfc).run s = (.ok ids, s')) :
    s.auditEvents.length < s'.auditEvents.length := by
  cases op with
  | compareToBaseline candidateArtifactId comparedAt actorRef =>
    obtain ⟨result, s₁, hrun, hret⟩ := run_bind_ok h
    cases hret
    obtain ⟨_, _, _, -, -, -, -, hsession⟩ := compareToBaseline_eq_ok hrun
    refine insertThenAppend_grows ?_ hsession
    split
    · rfl
    · rfl
  | amendScenarioSpec originalArtifactId amendedSpec editorRef reason amendedAt =>
    obtain ⟨⟨record, amendment⟩, s₁, hrun, hret⟩ := run_bind_ok h
    cases hret
    obtain ⟨idempotent, s₂, hadmits, hsession⟩ := amendScenarioSpec_eq_ok hrun
    have hle : s ≤ s₂ := by
      have hpreserves : (admitModel nfc (amendedAdmission originalArtifactId amendedSpec editorRef
          amendedAt)).Preserves s.Extends :=
        preserves_admitModel (transactionsKeep_extends s) trivial
      have hkept := Client.run_preserves hpreserves (Store.Extends.refl s)
      rw [hadmits] at hkept
      exact hkept
    refine Nat.lt_of_le_of_lt hle.auditEvents.length_le (insertThenAppend_grows ?_ hsession)
    rfl
  | _ => exact absurd trivial hop

/-- **Idempotence.** After a performance that returned, a second one returns the same identifiers
and changes nothing exactly if the operation looks for its row first; and of such an operation two
clients at once, neither of them acting on an answer that no longer stands, both return these
identifiers and leave the tables as one performance does. -/
theorem operations_idempotent_iff (nfc : Nfc) (sys : System Store StoreError Unit)
    (h : Reachable nfc sys) (op : Operation) (ids : List String) (s' : Store)
    (hfirst : (op.identifiers nfc).run sys.state = (.ok ids, s')) :
    ((op.identifiers nfc).run s' = (.ok ids, s') ↔ op.LooksFirst) ∧
    (op.LooksFirst → ∀ final, Undisturbed (sys.state,
        [Party.start (op.identifiers nfc), Party.start (op.identifiers nfc)]) final →
      (∀ p ∈ final.2, ∀ e, p.client ≠ .raise e) ∧
        ((∀ p ∈ final.2, p.Finished) →
          final.1 = s' ∧ ∀ p ∈ final.2, p.client = .ret ids)) := by
  have hmono : ∀ s₀ : Store, (op.identifiers nfc).Preserves fun t => s₀ ≤ t := fun s₀ =>
    op.preserves_identifiers (transactionsKeep_extends s₀)
  obtain ⟨hsolo, hlast, hbounds⟩ := Client.solo_chain hmono hfirst ∅ (fun _ ht => ht.elim)
  rw [Set.empty_union] at hsolo
  have hle : sys.state ≤ s' := (hbounds s' hlast).1
  have hreadable : ∀ t ∈ (op.identifiers nfc).chain sys.state, t.ArtifactsReadable nfc := by
    have hend : s'.ArtifactsReadable nfc := by
      have hkept := Client.run_preserves (op.preserves_identifiers transactionsKeep_readable)
        (artifactsReadable_of_reachable h)
      rw [hfirst] at hkept
      exact hkept
    exact fun t ht row hrow => hend row ((hbounds t ht).2.artifacts.subset hrow)
  have hfollows : op.LooksFirst →
    (op.identifiers nfc).Follows ((op.identifiers nfc).chain sys.state)
      (fun lo a => s' ≤ lo ∧ a = ids) sys.state fun _ => True := by
    intro hop
    exact (op.retraces hreadable hop sys.state s' ids sys.state hsolo hfirst le_rfl hsolo.mem).imp
      fun lo a hend => ⟨hend.1.1, hend.2⟩
  refine ⟨⟨fun hagain => ?_, fun hop => ?_⟩, fun hop final hfinal => ?_⟩
  · by_contra hop
    exact absurd (Operation.logs_again hop hagain) (Nat.lt_irrefl _)
  · obtain ⟨a, hrun, rfl⟩ := (hfollows hop).repeated hlast (fun t ht => (hbounds t ht).2) hle
    exact hrun
  · obtain ⟨hraise, hreturn⟩ := (hfollows hop).interleaved hsolo.mem (fun t ht => (hbounds t ht).2)
      (by simp) (by simp) hfinal
    refine ⟨hraise, fun hfinished => ?_⟩
    obtain ⟨hstate, hvalues⟩ := hreturn hfinished
    refine ⟨hstate, fun p hp => ?_⟩
    obtain ⟨a, ha, rfl⟩ := hvalues p hp
    exact ha

/-! ### Two clients that look before either writes -/

theorem storeArtifact_again {a : Admission} {payload : Json}
    {s : Store} (h : s.hasArtifact record.artifactId = true) :
    storeArtifact nfc a record payload s =
      .error (.integrity "UNIQUE constraint failed: governance_artifacts.artifact_id") := by
  have hinsert : ∀ row : ArtifactRow, row.artifactId = record.artifactId → insertArtifact row s =
      .error (.integrity "UNIQUE constraint failed: governance_artifacts.artifact_id") := by
    intro row hrow
    rw [← hrow] at h
    simp [insertArtifact, insertRow, h]
  unfold storeArtifact
  simp only [bind, StateT.bind]
  rw [hinsert _ rfl]
  rfl

/-- Of two admissions at once one can fail. -/
theorem admissions_race {α : Type} {a : Admission} {payload : Json}
    {f : StoredArtifactRecord × Bool → StoreClient α} {s s₁ : Store}
    {r : StoredArtifactRecord × Bool} (hnone : s.artifact? record.artifactId = none)
    (hstore : storeArtifact nfc a record payload s = .ok (r, s₁)) :
    ∃ final, Interleaved (s, [Party.start (admitSession nfc a record payload >>= f),
        Party.start (admitSession nfc a record payload >>= f)]) final ∧
      ∃ p ∈ final.2, ∃ e, p.client = .raise e := by
  have hquery : ∀ t, select (fun s : Store =>
      s.artifacts.find? fun row => row.artifactId = record.artifactId) t =
        .ok (t.artifact? record.artifactId, t) := fun _ => rfl
  have hhas : s₁.hasArtifact record.artifactId = true := by
    obtain ⟨-, contentDigest, canonical, rfl⟩ := insertThenAppend_eq_ok hstore
    simp [Store.hasArtifact]
  obtain ⟨next, hnext, hagain⟩ : ∃ next, admitSession nfc a record payload >>= f =
      .session (select fun s : Store =>
        s.artifacts.find? fun row => row.artifactId = record.artifactId) next ∧
      next none = Client.bind (Client.transaction (storeArtifact nfc a record payload)) f :=
    ⟨_, rfl, rfl⟩
  rw [hnext]
  have hfirst := hquery s
  rw [hnone] at hfirst
  refine ⟨(s₁, [⟨f r, fun t => s₁ = s → storeArtifact nfc a record payload t = .ok (r, t)⟩,
    ⟨.raise (.integrity "UNIQUE constraint failed: governance_artifacts.artifact_id"),
      fun _ => True⟩]), ?_, _, List.mem_cons_of_mem _ List.mem_cons_self, _, rfl⟩
  refine .head (@PartyStep.commit _ _ _ _ s s [] [_] _ _ _ _ _ trivial hfirst) ?_
  refine .head (@PartyStep.commit _ _ _ _ s s [_] [] _ _ _ _ _ trivial hfirst) ?_
  rw [hagain]
  refine .head (@PartyStep.commit _ _ _ _ s s₁ [] [_] _ _ _ _ _ trivial hstore) ?_
  exact .single (@PartyStep.fail _ _ _ _ s₁ [_] [] _ _ _ _ _ trivial (storeArtifact_again hhas))

theorem first_of_three {α β γ δ : Type} (c : StoreClient α) (f : α → StoreClient β)
    (g : β → StoreClient γ) (h : γ → StoreClient δ) : ∃ f', c >>= f >>= g >>= h = c >>= f' :=
  ⟨_, by rw [Client.bind_assoc, Client.bind_assoc]⟩

/-- The admission of an empty batch, as an operation. -/
def admitEmptyBatch : Operation :=
  .admitRuntimeBatch emptyRuntimeBatch "2026-07-29T00:00:00Z" "actor-1"

theorem admitEmptyBatch_returns :
    ∃ ids s', (admitEmptyBatch.identifiers asciiNfc).run Store.empty = (.ok ids, s') := by
  have hok : ((admitEmptyBatch.identifiers asciiNfc).run Store.empty).1.isOk = true := by
    decide +kernel
  revert hok
  cases (admitEmptyBatch.identifiers asciiNfc).run Store.empty with
  | mk result s' =>
    intro hok
    cases result with
    | error e => cases hok
    | ok ids => exact ⟨ids, s', rfl⟩

/-- An empty batch, admitted twice. -/
theorem admitEmptyBatch_idempotent :
    ∃ ids s', (admitEmptyBatch.identifiers asciiNfc).run Store.empty = (.ok ids, s') ∧
      (admitEmptyBatch.identifiers asciiNfc).run s' = (.ok ids, s') := by
  obtain ⟨ids, s', hfirst⟩ := admitEmptyBatch_returns
  have hiff := operations_idempotent_iff asciiNfc ⟨Store.empty, []⟩ .refl admitEmptyBatch ids s'
    hfirst
  exact ⟨ids, s', hfirst, hiff.1.2 trivial⟩

/-- Two clients admit the same empty batch: one of them raises. -/
theorem admitEmptyBatch_races :
    (∃ ids s', (admitEmptyBatch.identifiers asciiNfc).run Store.empty = (.ok ids, s')) ∧
    ∃ final, Interleaved (Store.empty, [Party.start (admitEmptyBatch.identifiers asciiNfc),
        Party.start (admitEmptyBatch.identifiers asciiNfc)]) final ∧
      ∃ p ∈ final.2, ∃ e, p.client = .raise e := by
  refine ⟨admitEmptyBatch_returns, ?_⟩
  obtain ⟨ids, s', hrun⟩ := admitEmptyBatch_returns
  -- the batch artifact is admitted first
  obtain ⟨f, hf⟩ : ∃ f, admitEmptyBatch.identifiers asciiNfc =
      admitModel asciiNfc emptyBatchAdmission >>= f :=
    first_of_three (admitModel asciiNfc emptyBatchAdmission) _ _ _
  rw [hf] at hrun ⊢
  obtain ⟨⟨record, idempotent⟩, s₁, hadmits, -⟩ := run_bind_ok hrun
  obtain ⟨contentDigest, payloadDigest, createdAt, payload, hsession⟩ := admitModel_session hadmits
  rw [hsession _ (.refl _)] at hadmits ⊢
  exact admissions_race rfl (transaction_run_ok hadmits)

end AtlasDb.Governance
