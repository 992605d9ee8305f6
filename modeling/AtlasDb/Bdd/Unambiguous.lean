import AtlasDb.Bdd.Totality

/-!
# Validated snapshots and ambiguous terms

The validator counts a binding of a mapping by the digest of all its binding fields; the compiler
compares only the fields of the mapping's kind. Two approved mappings may therefore bind differently
for the one and match the same requirement for the other.
-/

namespace AtlasDb.Bdd

open Core Analysis Lib

variable {nfc : Nfc} {batch : ScenarioSpecBatchResult} {v : VocabularySnapshot}
  {c : ClassificationSnapshot} {effectiveTimestamp : Option String} {k : Compilation}
  {spec : ScenarioSpec}

/-! ## What the validator establishes -/

theorem duplicates_eq_nil {α : Type} {key : α → String} {values : List α}
    {issue : String → Nat → AuthorityValidationIssue} :
    duplicates key values issue = [] ↔ (values.map key).Nodup := by
  rw [duplicates, countBy, List.flatMap_eq_nil_iff, List.nodup_iff_count_le_one]
  constructor
  · intro h a
    by_cases ha : a ∈ values.map key
    · have hone : (if 1 < (values.map key).count a then [issue a ((values.map key).count a)]
          else []) = [] :=
        h (a, (values.map key).count a) (List.mem_map.2 ⟨a, by simpa using ha, rfl⟩)
      by_contra hmany
      rw [if_pos (not_le.1 hmany)] at hone
      cases hone
    · rw [List.count_eq_zero_of_not_mem ha]
      exact Nat.zero_le 1
  · rintro h ⟨a, count⟩ hmem
    obtain ⟨b, -, hpair⟩ := List.mem_map.1 hmem
    have hcount : (values.map key).count b = count := (Prod.mk.inj hpair).2
    have hle : count ≤ 1 := hcount ▸ h b
    exact if_neg (not_lt.2 hle)

/-- The facts about a pair of snapshots the compiler relies on. -/
structure SnapshotsAgree (nfc : Nfc) (v : VocabularySnapshot) (c : ClassificationSnapshot) :
    Prop where
  scopes : v.authorityScope = c.authorityScope
  vocabulary : contentValid nfc v.content v.contentDigest = true
  classification : contentValid nfc c.content c.contentDigest = true
  mapping : ∀ m ∈ v.mappings, mappingIssues nfc v m = []
  approval : ∀ a ∈ c.approvals, approvalIssues nfc c a = []
  mappingIds : (v.mappings.map VocabularyMapping.mappingId).Nodup
  bindings : ((v.mappings.filter fun m => m.mappingKind ≠ .mappingCandidateOnly).map
    (mappingBindingKey nfc)).Nodup
  approvalIds : (c.approvals.map ClassificationApproval.approvalId).Nodup
  observations : (c.approvals.map ClassificationApproval.classificationObservationRef).Nodup

theorem ite_singleton_eq_nil {α : Type} {p : Prop} [Decidable p] {a : α} :
    (if p then [] else [a]) = [] ↔ p := by
  split
  · next h => simp [h]
  · next h => simp [h]

theorem validationStatus_eq_valid :
    validationStatus nfc v c = .valid ↔ SnapshotsAgree nfc v c := by
  have hstatus : validationStatus nfc v c = .valid ↔ authorityIssues nfc v c = [] := by
    rw [validationStatus]
    split
    · next h => simp [h]
    · next h => simp [h]
  rw [hstatus, authorityIssues, vocabularyIssues, classificationIssues]
  simp only [List.append_eq_nil_iff, List.flatMap_eq_nil_iff, duplicates_eq_nil,
    ite_singleton_eq_nil]
  constructor
  · rintro ⟨⟨⟨⟨⟨hv, hm⟩, hmid⟩, hbind⟩, ⟨⟨hc, ha⟩, haid⟩, hobs⟩, hscope⟩
    refine ⟨?_, hv, hc, hm, ha, hmid, hbind, haid, hobs⟩
    by_contra hne
    rw [if_pos hne] at hscope
    cases hscope
  · rintro ⟨hscope, hv, hc, hm, ha, hmid, hbind, haid, hobs⟩
    exact ⟨⟨⟨⟨⟨hv, hm⟩, hmid⟩, hbind⟩, ⟨⟨hc, ha⟩, haid⟩, hobs⟩, if_neg (not_not.2 hscope)⟩

theorem mappingIssues_eq_nil {m : VocabularyMapping} : mappingIssues nfc v m = [] ↔
    m.authorityScope = v.authorityScope ∧ contentValid nfc m.content m.contentDigest = true ∧
      Text.strip m.approvalRef.toList ≠ [] ∧ m.evidenceRefs ≠ [] ∧
      ¬ (v.authorityScope = .platform ∧ m.mappingKind = .mappingCandidateOnly) ∧
      timestampActive v.effectiveTimestamp m.validFrom m.validTo = true := by
  simp only [mappingIssues, List.append_eq_nil_iff, ite_singleton_eq_nil, ite_eq_right_iff,
    List.cons_ne_nil, imp_false, ne_eq, not_not, and_assoc]

theorem approvalIssues_eq_nil {a : ClassificationApproval} : approvalIssues nfc c a = [] ↔
    a.authorityScope = c.authorityScope ∧ contentValid nfc a.content a.contentDigest = true ∧
      Text.strip a.approvalRef.toList ≠ [] ∧ a.evidenceRefs ≠ [] ∧
      timestampActive c.effectiveTimestamp a.validFrom a.validTo = true := by
  simp only [approvalIssues, List.append_eq_nil_iff, ite_singleton_eq_nil, ite_eq_right_iff,
    List.cons_ne_nil, imp_false, ne_eq, not_not, and_assoc]

theorem snapshotBlockers_eq_nil (h : SnapshotsAgree nfc v c) : snapshotBlockers nfc v c = [] := by
  have hmappings : (v.mappings.any fun m => !contentValid nfc m.content m.contentDigest) = false :=
    List.any_eq_false.2 fun m hm => by
      rw [(mappingIssues_eq_nil.1 (h.mapping m hm)).2.1]
      exact Bool.false_ne_true
  have happrovals : (c.approvals.any fun a =>
    !contentValid nfc a.content a.contentDigest) = false :=
    List.any_eq_false.2 fun a ha => by
      rw [(approvalIssues_eq_nil.1 (h.approval a ha)).2.1]
      exact Bool.false_ne_true
  rw [snapshotBlockers, h.vocabulary, h.classification, hmappings, happrovals]
  simp [blockIf, h.scopes]

/-! ## What the compiler may report -/

/-- The codes a validated pair of snapshots should not produce. -/
def forbiddenCodes (scope : AuthorityScope) : List BddBlockerCode :=
  [.ambiguousApprovedBusinessTerm, .ambiguousClassificationApproval, .authorityScopeMismatch,
    .vocabularySnapshotDigestInvalid, .classificationSnapshotDigestInvalid] ++
  if scope = .platform then [.nonPromotableMappingKind] else []

/-- All mappings and approvals are active at the instant of the compilation. -/
def AllActive (v : VocabularySnapshot) (c : ClassificationSnapshot) (compileAt : String) : Prop :=
  (∀ m ∈ v.mappings, timestampActive compileAt m.validFrom m.validTo = true) ∧
    ∀ a ∈ c.approvals, timestampActive compileAt a.validFrom a.validTo = true

/-- The approved mappings that match a requirement. -/
def approvedMatches (v : VocabularySnapshot) (r : VocabularyRequirement) : List VocabularyMapping :=
  v.mappings.filter fun m => mappingMatches m r && m.mappingKind ≠ .mappingCandidateOnly

/-- Every requirement of the batch is matched by at most one approved mapping. -/
def MatchesOnce (nfc : Nfc) (batch : ScenarioSpecBatchResult) (v : VocabularySnapshot) : Prop :=
  ∀ s ∈ batch.scenarioSpecs, ∀ rs, vocabularyRequirements nfc s = .ok rs →
    ∀ r ∈ rs, (approvedMatches v r).length ≤ 1

theorem promotableMappings_eq {compileAt : String} {r : VocabularyRequirement}
    (h : ∀ m ∈ v.mappings, timestampActive compileAt m.validFrom m.validTo = true) :
    promotableMappings v compileAt r = approvedMatches v r := by
  have hactive : ((v.mappings.filter fun m => mappingMatches m r).filter fun m =>
      timestampActive compileAt m.validFrom m.validTo) = v.mappings.filter fun m =>
        mappingMatches m r := by
    apply List.filter_eq_self.2
    intro m hm
    exact h m (List.mem_filter.1 hm).1
  rw [promotableMappings, hactive, List.filter_filter, approvedMatches]
  apply List.filter_congr
  intro m _
  rw [Bool.and_comm]

theorem failureBlocker_allowed (scope : AuthorityScope) (error : PyError) :
    failureBlocker error ∉ forbiddenCodes scope := by
  have hcodes : ∀ code, code = BddBlockerCode.traceabilityManifestFailed ∨
      code = .compilationInternalError → code ∉ forbiddenCodes scope := by
    rintro code (rfl | rfl) <;> cases scope <;> decide
  apply hcodes
  cases error with
  | keyError key => rw [failureBlocker]; split <;> simp
  | valueError text => rw [failureBlocker]; split <;> simp
  | indexError => exact .inr rfl
  | canonicalJson e => exact .inr rfl

/-- No forbidden code comes from a precondition. -/
theorem classifyPrecondition_allowed {observations : List ClassificationObservation}
    {compileAt : String} {p : ScenarioPrecondition} {gate : Gate ClassificationApproval}
    (h : SnapshotsAgree nfc v c)
    (hrun : classifyPrecondition nfc observations c compileAt p = .ok gate)
    {scope : AuthorityScope} {code : BddBlockerCode} (hcode : code ∈ forbiddenCodes scope) :
    code ∉ gate.blockers := by
  have hother : ∀ other, other ∉ forbiddenCodes scope → code ∉ [other] := by
    intro other hother hmem
    rw [List.mem_singleton.1 hmem] at hcode
    exact hother hcode
  have hmissing : BddBlockerCode.missingClassificationApproval ∉ forbiddenCodes scope := by
    cases scope <;> decide
  have hineffective : BddBlockerCode.classificationApprovalNotEffective ∉ forbiddenCodes scope := by
    cases scope <;> decide
  have hmismatch : BddBlockerCode.classificationCandidateMismatch ∉ forbiddenCodes scope := by
    cases scope <;> decide
  have hdigest : BddBlockerCode.classificationObservationDigestMismatch ∉ forbiddenCodes scope := by
    cases scope <;> decide
  rw [classifyPrecondition] at hrun
  split at hrun
  · cases hrun
    exact hother _ hmissing
  · next observationRef _ =>
      simp only at hrun
      split at hrun
      · cases hrun
        exact hother _ hmissing
      · split at hrun
        · cases hrun
          exact hother _ hmissing
        · -- there is at most one approval of an observation
          have hone : ((approvalsFor c observationRef).filter fun a =>
              timestampActive compileAt a.validFrom a.validTo).length ≤ 1 := by
            have hfilter : (c.approvals.filter fun a =>
                a.classificationObservationRef = observationRef).length ≤ 1 := by
              have hcount := List.nodup_iff_count_le_one.1 h.observations observationRef
              rw [List.count_eq_countP, List.countP_map, List.countP_eq_length_filter] at hcount
              refine le_trans (le_of_eq (congrArg List.length ?_)) hcount
              apply List.filter_congr
              intro a _
              rw [Function.comp_apply, beq_eq_decide]
            refine le_trans (List.length_filter_le _ _) ?_
            rw [approvalsFor, (sortBy_perm _ _).length_eq]
            exact hfilter
          split at hrun
          · cases hrun
            exact hother _ hineffective
          · next observation _ _ approval hactive =>
              obtain ⟨digest, -, hrun⟩ := bind_eq_ok.1 hrun
              cases hrun
              have hmem : approval ∈ c.approvals := by
                have hin : approval ∈ (approvalsFor c observationRef).filter fun a =>
                    timestampActive compileAt a.validFrom a.validTo := by
                  rw [hactive]
                  exact List.mem_cons_self
                have happ := (List.mem_filter.1 hin).1
                rw [approvalsFor, mem_sortBy] at happ
                exact (List.mem_filter.1 happ).1
              have hscope := (approvalIssues_eq_nil.1 (h.approval approval hmem)).1
              simp only [List.mem_append, mem_blockIf]
              rintro ((⟨hne, rfl⟩ | ⟨-, rfl⟩) | ⟨-, rfl⟩)
              · exact absurd hscope (of_decide_eq_true hne)
              · exact hmismatch hcode
              · exact hdigest hcode
          · next hzero hsingle =>
              exfalso
              cases hlist : (approvalsFor c observationRef).filter fun a =>
                  timestampActive compileAt a.validFrom a.validTo with
              | nil => exact hzero hlist
              | cons a more =>
                cases more with
                | nil => exact hsingle a hlist
                | cons b rest =>
                  rw [hlist] at hone
                  simp at hone

/-- **The mapping gate** of a validated snapshot reports a forbidden code exactly for a requirement
that two approved mappings match. -/
theorem mapRequirement_reports (h : SnapshotsAgree nfc v c) {compileAt : String}
    (hactive : ∀ m ∈ v.mappings, timestampActive compileAt m.validFrom m.validTo = true)
    {r : VocabularyRequirement} {gate : Gate (VocabularyRequirement × VocabularyMapping)}
    (hrun : mapRequirement v compileAt spec r = .ok gate) :
    (∃ code ∈ forbiddenCodes v.authorityScope, code ∈ gate.blockers) ↔
      1 < (approvedMatches v r).length := by
  have hsingle : ∀ other, other ∉ forbiddenCodes v.authorityScope →
      ¬ ∃ code ∈ forbiddenCodes v.authorityScope, code ∈ [other] := by
    rintro other hother ⟨code, hcode, hmem⟩
    rw [List.mem_singleton.1 hmem] at hcode
    exact hother hcode
  have hall : ((v.mappings.filter fun m => mappingMatches m r).filter fun m =>
      timestampActive compileAt m.validFrom m.validTo) = v.mappings.filter fun m =>
        mappingMatches m r := by
    apply List.filter_eq_self.2
    intro m hm
    exact hactive m (List.mem_filter.1 hm).1
  have hsub : (approvedMatches v r).length ≤
      (v.mappings.filter fun m => mappingMatches m r).length := by
    have heq := @promotableMappings_eq v compileAt r hactive
    rw [promotableMappings, hall] at heq
    rw [← heq]
    exact List.length_filter_le _ _
  rw [mapRequirement, hall, promotableMappings_eq hactive] at hrun
  simp only at hrun
  split at hrun
  · next hempty =>
      cases hrun
      rw [List.isEmpty_iff.1 hempty] at hsub
      rw [List.length_nil] at hsub
      refine iff_of_false (hsingle _ ?_) (by omega)
      cases v.authorityScope <;> decide
  · next hnonempty =>
      split at hrun
      · next hzero =>
          cases hrun
          rw [hzero]
          refine iff_of_false ?_ (by simp)
          apply hsingle
          -- in a platform snapshot every mapping is approved
          cases hscope : v.authorityScope with
          | testFixtureOnly => decide
          | platform =>
            exfalso
            apply hnonempty
            rw [List.isEmpty_iff, List.filter_eq_nil_iff]
            intro m hm hmatches
            rw [approvedMatches, List.filter_eq_nil_iff] at hzero
            have happroved := (mappingIssues_eq_nil.1 (h.mapping m hm)).2.2.2.2.1
            apply hzero m hm
            rw [hmatches, Bool.true_and]
            exact decide_eq_true fun hkind => happroved ⟨hscope, hkind⟩
      · next mapping hone =>
          obtain ⟨bound, -, hrun⟩ := bind_eq_ok.1 hrun
          cases hrun
          rw [hone]
          refine iff_of_false ?_ (by simp)
          rintro ⟨code, hcode, hmem⟩
          have hin : mapping ∈ v.mappings := by
            have hin : mapping ∈ approvedMatches v r := by
              rw [hone]
              exact List.mem_cons_self
            exact (List.mem_filter.1 hin).1
          have hscope := (mappingIssues_eq_nil.1 (h.mapping mapping hin)).1
          simp only [List.mem_append, mem_blockIf] at hmem
          rcases hmem with (⟨hne, rfl⟩ | ⟨-, rfl⟩) | ⟨-, rfl⟩
          · exact absurd hscope (of_decide_eq_true hne)
          · revert hcode
            cases v.authorityScope <;> decide
          · revert hcode
            cases v.authorityScope <;> decide
      · next hzero hone =>
          cases hrun
          refine iff_of_true ⟨_, ?_, List.mem_cons_self⟩ ?_
          · rw [forbiddenCodes]
            simp
          · match hlist : approvedMatches v r with
            | [] => exact absurd hlist hzero
            | [m] => exact absurd hlist (hone m)
            | m :: m' :: rest => simp

/-! ## A run of the compiler -/

/-- `compile_all` reports none of the forbidden codes. -/
def ReportsNone (v : VocabularySnapshot) (out : BddCompilationBatch) : Prop :=
  ∀ result ∈ out.compilationResults, ∀ code ∈ forbiddenCodes v.authorityScope,
    code ∉ result.blockers

/-- Forbidden codes can only come from the mappings. -/
theorem other_blockers_allowed (h : SnapshotsAgree nfc v c)
    (hk : Prepared nfc batch v c effectiveTimestamp k) {gates : Gates}
    {nested : List BddBlockerCode} {approvals : List (Gate ClassificationApproval)}
    {mappings : List (Gate (VocabularyRequirement × VocabularyMapping))}
    (hb : Blocked nfc k spec gates nested approvals mappings) {code : BddBlockerCode}
    (hcode : code ∈ forbiddenCodes v.authorityScope) (hmem : code ∈ gates.blockers) :
    code ∈ mappings.flatMap Gate.blockers := by
  have hother : ∀ other, other ∉ forbiddenCodes v.authorityScope → code ≠ other := by
    rintro other hother rfl
    exact hother hcode
  have hbatch : code ≠ .scenarioSpecBatchDigestInvalid :=
    hother _ (by cases v.authorityScope <;> decide)
  have hnested : code ≠ .scenarioNestedArtifactDigestInvalid :=
    hother _ (by cases v.authorityScope <;> decide)
  have hspec : code ≠ .scenarioSpecDigestInvalid :=
    hother _ (by cases v.authorityScope <;> decide)
  have hclosure : code ≠ .effectClosureInsufficient :=
    hother _ (by cases v.authorityScope <;> decide)
  have hresolution : code ≠ .dependencyResolutionIncomplete :=
    hother _ (by cases v.authorityScope <;> decide)
  have heffect : code ≠ .nonDefinitiveEffect := hother _ (by cases v.authorityScope <;> decide)
  have hstructure : code ≠ .gherkinStructureInvalid :=
    hother _ (by cases v.authorityScope <;> decide)
  rw [hb.gates_eq] at hmem
  simp only [List.mem_append, mem_blockIf, effectBlockers] at hmem
  rcases hmem with ((((hmem | ⟨-, rfl⟩) | hmem) | hmem) | hmem) | ⟨-, rfl⟩ | ⟨-, rfl⟩
  · obtain ⟨found, hfound, heq⟩ := hk.blocked
    rw [heq, snapshotBlockers_eq_nil h, List.append_nil] at hmem
    rw [batchBlockers] at hfound
    obtain ⟨batchValid, -, hfound⟩ := bind_eq_ok.1 hfound
    obtain ⟨invalid, -, hfound⟩ := bind_eq_ok.1 hfound
    cases hfound
    simp only [List.mem_append, mem_blockIf] at hmem
    rcases hmem with ⟨-, rfl⟩ | ⟨-, rfl⟩
    · exact absurd rfl hbatch
    · exact absurd rfl hnested
  · exact absurd rfl hspec
  · have heq := hb.nested_eq
    rw [nestedBlockers] at heq
    split at heq
    · obtain ⟨valid, -, heq⟩ := bind_eq_ok.1 heq
      cases heq
      simp only [List.mem_append, mem_blockIf] at hmem
      rcases hmem with (⟨-, rfl⟩ | ⟨-, rfl⟩) | ⟨-, rfl⟩
      · exact absurd rfl hnested
      · exact absurd rfl hclosure
      · exact absurd rfl hresolution
    · cases heq
      exact absurd (List.mem_singleton.1 hmem) hnested
  · obtain ⟨gate, hgate, hin⟩ := List.mem_flatMap.1 hmem
    obtain ⟨p, -, hrun⟩ := exists_source hb.approvals_eq hgate
    rw [hk.classification] at hrun
    exact absurd hin (classifyPrecondition_allowed h hrun hcode)
  · exact hmem
  · exact absurd rfl heffect
  · exact absurd rfl hstructure

/-- The gates of a specification report a forbidden code exactly when two approved mappings match
one of its requirements. -/
theorem gates_report (h : SnapshotsAgree nfc v c)
    (hk : Prepared nfc batch v c effectiveTimestamp k) (hactive : AllActive v c k.compileAt)
    {gates : Gates} (hgates : specGates nfc k spec = .ok gates) :
    (∃ code ∈ forbiddenCodes v.authorityScope, code ∈ gates.blockers) ↔
      ∃ r ∈ k.requirementsOf spec, 1 < (approvedMatches v r).length := by
  obtain ⟨nested, approvals, mappings, hb⟩ := specGates_eq_ok.1 hgates
  have hrounds := hb.mappings_eq
  rw [hk.vocabulary] at hrounds
  constructor
  · rintro ⟨code, hcode, hmem⟩
    obtain ⟨gate, hgate, hin⟩ := List.mem_flatMap.1 (other_blockers_allowed h hk hb hcode hmem)
    obtain ⟨r, hr, hrun⟩ := exists_source hrounds hgate
    exact ⟨r, hr, (mapRequirement_reports h hactive.1 hrun).1 ⟨code, hcode, hin⟩⟩
  · rintro ⟨r, hr, hmany⟩
    obtain ⟨gate, hgate, hrun⟩ := exists_of_mapM hrounds hr
    obtain ⟨code, hcode, hin⟩ := (mapRequirement_reports h hactive.1 hrun).2 hmany
    refine ⟨code, hcode, ?_⟩
    rw [hb.gates_eq]
    exact List.mem_append_left _ (List.mem_append_right _ (List.mem_flatMap.2 ⟨gate, hgate, hin⟩))

/-- Whether a run reports a forbidden code is decided by the requirements it gives to each
specification. -/
theorem reportsNone_iff_requirements {out : BddCompilationBatch} (h : SnapshotsAgree nfc v c)
    (hrun : compileAll nfc batch v c effectiveTimestamp = .ok out)
    (hactive : ∀ compileAt, compileInstant v c effectiveTimestamp = .ok compileAt →
      AllActive v c compileAt) :
    ReportsNone v out ↔ ∃ k, Prepared nfc batch v c effectiveTimestamp k ∧
      ∀ spec ∈ batch.scenarioSpecs, ∀ r ∈ k.requirementsOf spec,
        (approvedMatches v r).length ≤ 1 := by
  obtain ⟨k, rounds, hk, hrounds, rfl⟩ := rounds_of_compileAll hrun
  have hallActive := hactive k.compileAt hk.instant
  constructor
  · intro hnone
    refine ⟨k, hk, fun spec hspec r hr => not_lt.1 fun hmany => ?_⟩
    obtain ⟨⟨result, emission⟩, hround, hcompile⟩ := exists_of_mapM hrounds (mem_sortBy.2 hspec)
    obtain ⟨gates, hgates, hreported, -⟩ := blockers_of_compileSpec hcompile
    obtain ⟨code, hcode, hin⟩ := (gates_report h hk hallActive hgates).2 ⟨r, hr, hmany⟩
    exact hnone result (mem_sortBy.2 (List.mem_map.2 ⟨_, hround, rfl⟩)) code hcode
      (hreported code hin)
  · rintro ⟨k', hk', honce⟩ result hresult code hcode hin
    have hkeq : ∀ spec, k.requirementsOf spec = k'.requirementsOf spec := by
      intro spec
      have hsame := hk.exported.symm.trans hk'.exported
      rw [Compilation.requirementsOf, Compilation.requirementsOf, Except.ok.inj hsame]
    obtain ⟨⟨result', emission⟩, hround, rfl⟩ := List.mem_map.1 (mem_sortBy.1 hresult)
    obtain ⟨spec, hspec, hcompile⟩ := exists_source hrounds hround
    obtain ⟨gates, hgates, -, hreported⟩ := blockers_of_compileSpec hcompile
    rcases hreported code hin with hgate | ⟨error, rfl⟩
    · obtain ⟨r, hr, hmany⟩ := (gates_report h hk hallActive hgates).1 ⟨code, hcode, hgate⟩
      rw [hkeq] at hr
      exact absurd hmany (not_lt.2 (honce spec (mem_sortBy.1 hspec) r hr))
    · exact failureBlocker_allowed _ _ hcode

theorem matchesOnce_iff (hk : Prepared nfc batch v c effectiveTimestamp k) :
    (∀ spec ∈ batch.scenarioSpecs, ∀ r ∈ k.requirementsOf spec,
      (approvedMatches v r).length ≤ 1) ↔ MatchesOnce nfc batch v := by
  constructor
  · intro h s hs rs hrs r hr
    exact h s hs r ((mem_requirementsOf hk).2 ⟨s, hs, rfl, rs, hrs, hr⟩)
  · intro h spec _ r hr
    obtain ⟨s, hs, -, rs, hrs, hr⟩ := (mem_requirementsOf hk).1 hr
    exact h s hs rs hrs r hr

theorem reportsNone_of_matchesOnce {out : BddCompilationBatch}
    (h : validationStatus nfc v c = .valid)
    (hrun : compileAll nfc batch v c effectiveTimestamp = .ok out)
    (hactive : ∀ compileAt, compileInstant v c effectiveTimestamp = .ok compileAt →
      AllActive v c compileAt) (honce : MatchesOnce nfc batch v) : ReportsNone v out := by
  obtain ⟨k, -, hk, -⟩ := rounds_of_compileAll hrun
  exact (reportsNone_iff_requirements (validationStatus_eq_valid.1 h) hrun hactive).2
    ⟨k, hk, (matchesOnce_iff hk).2 honce⟩

theorem matchesOnce_of_reportsNone {out : BddCompilationBatch}
    (h : validationStatus nfc v c = .valid)
    (hrun : compileAll nfc batch v c effectiveTimestamp = .ok out)
    (hactive : ∀ compileAt, compileInstant v c effectiveTimestamp = .ok compileAt →
      AllActive v c compileAt) (hnone : ReportsNone v out) : MatchesOnce nfc batch v := by
  obtain ⟨k, hk, honce⟩ :=
    (reportsNone_iff_requirements (validationStatus_eq_valid.1 h) hrun hactive).1 hnone
  exact (matchesOnce_iff hk).1 honce

/-- **Authority refinement, exactly**: with validated snapshots that are active throughout, a run of
the compiler reports no ambiguity, scope or snapshot code exactly when every requirement of the
batch is matched by at most one approved mapping. -/
theorem validated_snapshot_compiles_unambiguously_iff {out : BddCompilationBatch}
    (h : validationStatus nfc v c = .valid)
    (hrun : compileAll nfc batch v c effectiveTimestamp = .ok out)
    (hactive : ∀ compileAt, compileInstant v c effectiveTimestamp = .ok compileAt →
      AllActive v c compileAt) : ReportsNone v out ↔ MatchesOnce nfc batch v :=
  ⟨matchesOnce_of_reportsNone h hrun hactive, reportsNone_of_matchesOnce h hrun hactive⟩

theorem done_approved : ApprovedPhrase "Done".toList :=
  ⟨by decide, by decide, by decide, by decide⟩

theorem done_wellFormed : WellFormed "Done".toList := by
  have hnone : (markups "Done".toList).2.isNone = true := by decide +kernel
  exact Option.isNone_iff_eq_none.1 hnone

/-- Two manual mappings that are approved for one requirement under different patterns. -/
def twiceApproved : VocabularySnapshot :=
  manualVocabulary asciiLineNfc.toNfc "scenario" "Done" done_approved
    [⟨"first", .featureTitle, "procedure"⟩, ⟨"second", .featureTitle, "procedure"⟩]

theorem twiceApproved_valid : validationStatus asciiLineNfc.toNfc twiceApproved
    (emptyClassification asciiLineNfc.toNfc) = .valid := by
  rw [validationStatus_eq_valid]
  have hbindings : ((twiceApproved.mappings.filter fun m =>
      m.mappingKind ≠ .mappingCandidateOnly).map (mappingBindingKey asciiLineNfc.toNfc)).Nodup := by
    decide +kernel
  refine ⟨rfl, manualVocabulary_valid, emptyClassification_valid, fun m hm => ?_, nofun, by decide,
    hbindings, List.nodup_nil, List.nodup_nil⟩
  obtain ⟨slot, -, rfl⟩ := List.mem_map.1 hm
  exact mappingIssues_eq_nil.2 ⟨rfl, manualMapping_valid slot,
    (by decide : Text.strip "approval".toList ≠ []), nofun, nofun, active_newYear⟩

theorem twiceApproved_active (compileAt : String)
    (h : compileInstant twiceApproved (emptyClassification asciiLineNfc.toNfc) none =
      .ok compileAt) :
    AllActive twiceApproved (emptyClassification asciiLineNfc.toNfc) compileAt := by
  have hinstant : compileInstant twiceApproved (emptyClassification asciiLineNfc.toNfc) none
      = .ok "2026-01-01T00:00:00.000000Z" := compileInstant_same rfl rfl
  rw [← Except.ok.inj (hinstant.symm.trans h)]
  refine ⟨fun m hm => ?_, nofun⟩
  obtain ⟨slot, -, rfl⟩ := List.mem_map.1 hm
  exact active_newYear

theorem twiceApproved_twice {rs : List VocabularyRequirement}
    (hrs : vocabularyRequirements asciiLineNfc.toNfc
      ((singleSpec "scenario" "procedure" "effect").withDigest asciiLineNfc.toNfc) = .ok rs) :
    ∃ r ∈ rs, 1 < (approvedMatches twiceApproved r).length := by
  have hfrom := @fromScenarioCompiler_single asciiLineNfc.toNfc "scenario" "procedure" "effect"
    (by decide) (by decide)
  obtain ⟨r, hr, -, -, htwo⟩ := @promotable_slot asciiLineNfc "scenario" "procedure" "effect" "Done"
    done_approved [⟨"first", .featureTitle, "procedure"⟩, ⟨"second", .featureTitle, "procedure"⟩]
    ⟨"first", .featureTitle, "procedure"⟩ _
    (requires_of_batch hfrom (List.mem_singleton_self _) hrs) rfl
  have hactive := (twiceApproved_active _ (compileInstant_same rfl rfl)).1
  have hmatches : approvedMatches twiceApproved r
      = promotableMappings twiceApproved "2026-01-01T00:00:00.000000Z" r :=
    (promotableMappings_eq hactive).symm
  refine ⟨r, hr, ?_⟩
  rw [hmatches]
  refine Nat.lt_of_lt_of_eq ?_ (congrArg List.length htwo).symm
  rw [List.length_map, List.filter_cons_of_pos (by simp), List.filter_cons_of_pos (by simp)]
  exact Nat.lt_succ_self 1

theorem twiceApproved_returns : ∃ out, compileAll asciiLineNfc.toNfc
    (singleBatch asciiLineNfc.toNfc "scenario" "procedure" "effect") twiceApproved
    (emptyClassification asciiLineNfc.toNfc) none = .ok out := by
  have hfrom := @fromScenarioCompiler_single asciiLineNfc.toNfc "scenario" "procedure" "effect"
    (by decide) (by decide)
  have hinstant : compileInstant twiceApproved (emptyClassification asciiLineNfc.toNfc) none
      = .ok "2026-01-01T00:00:00.000000Z" := compileInstant_same rfl rfl
  obtain ⟨out, hrun, -⟩ := gateExact_of_renderable hfrom hinstant fun spec hspec rs hrs => by
    rw [List.mem_singleton.1 hspec] at hrs ⊢
    refine ⟨fun r _ m hm => ?_, fun k gates hk hgates hempty => ?_⟩
    · have hmem : m ∈ promotableMappings twiceApproved "2026-01-01T00:00:00.000000Z" r :=
        hm ▸ List.mem_singleton_self m
      rw [twiceApproved, promotable_manual] at hmem
      obtain ⟨slot, -, rfl⟩ := List.mem_map.1 hmem
      exact done_wellFormed
    · obtain ⟨r, hr, htwice⟩ := twiceApproved_twice hrs
      obtain ⟨rs', hrs', hown, -⟩ := requirements_in_batch hfrom hk (List.mem_singleton_self _)
      have hsame : rs = rs' := Except.ok.inj (hrs.symm.trans hrs')
      have hat : k.compileAt = "2026-01-01T00:00:00.000000Z" :=
        Except.ok.inj (hk.instant.symm.trans hinstant)
      obtain ⟨code, -, hcode⟩ := (gates_report (validationStatus_eq_valid.1 twiceApproved_valid) hk
        (hat ▸ twiceApproved_active _ hinstant) hgates).2 ⟨r, (hown r).2 (hsame ▸ hr), htwice⟩
      rw [hempty] at hcode
      cases hcode
  exact ⟨out, hrun⟩

/-- A pair that is valid and active throughout, and a run that reports an ambiguity. -/
theorem twiceApproved_reports : ∃ out,
    validationStatus asciiLineNfc.toNfc twiceApproved (emptyClassification asciiLineNfc.toNfc)
      = .valid ∧
    FromScenarioCompiler asciiLineNfc.toNfc
      (singleBatch asciiLineNfc.toNfc "scenario" "procedure" "effect") ∧
    compileAll asciiLineNfc.toNfc (singleBatch asciiLineNfc.toNfc "scenario" "procedure" "effect")
      twiceApproved (emptyClassification asciiLineNfc.toNfc) none = .ok out ∧
    (∀ compileAt, compileInstant twiceApproved (emptyClassification asciiLineNfc.toNfc) none
      = .ok compileAt →
      AllActive twiceApproved (emptyClassification asciiLineNfc.toNfc) compileAt) ∧
    ¬ ReportsNone twiceApproved out := by
  have hfrom := @fromScenarioCompiler_single asciiLineNfc.toNfc "scenario" "procedure" "effect"
    (by decide) (by decide)
  obtain ⟨out, hrun⟩ := twiceApproved_returns
  refine ⟨out, twiceApproved_valid, hfrom, hrun, twiceApproved_active, fun hnone => ?_⟩
  have honce := matchesOnce_of_reportsNone twiceApproved_valid hrun twiceApproved_active hnone
  obtain ⟨ds, hrs, -⟩ := definitions_spec hfrom (List.mem_singleton_self _)
  obtain ⟨r, hr, htwice⟩ := twiceApproved_twice hrs
  exact absurd (honce _ (List.mem_singleton_self _) _ hrs r hr) (not_le.2 htwice)

theorem validated_snapshot_compiles_unambiguously_iff_twice : ∃ out,
    compileAll asciiLineNfc.toNfc (singleBatch asciiLineNfc.toNfc "scenario" "procedure" "effect")
      twiceApproved (emptyClassification asciiLineNfc.toNfc) none = .ok out ∧
    (ReportsNone twiceApproved out ↔ MatchesOnce asciiLineNfc.toNfc
      (singleBatch asciiLineNfc.toNfc "scenario" "procedure" "effect") twiceApproved) := by
  obtain ⟨out, hrun⟩ := twiceApproved_returns
  exact ⟨out, hrun, validated_snapshot_compiles_unambiguously_iff twiceApproved_valid hrun
    twiceApproved_active⟩

end AtlasDb.Bdd
