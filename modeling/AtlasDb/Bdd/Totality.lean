import AtlasDb.Bdd.Rendering
import AtlasDb.Bdd.SingleEffect

/-!
# Is the gate total and exact?

A malformed template escapes from the mapping gate, which is not guarded; a template with an
optional placeholder passes the gate but cannot be printed, as no value is ever bound. Outside
these, a call returns with one result for each specification, and only the blockers of the gates
keep one from succeeding.
-/

namespace AtlasDb.Bdd

open Core Analysis Lib

variable {nfc : LineNfc} {batch : ScenarioSpecBatchResult} {v : VocabularySnapshot}
  {c : ClassificationSnapshot} {effectiveTimestamp : Option String} {k : Compilation}
  {spec : ScenarioSpec} {compileAt : String}

/-! ## Emissions -/

/-- The artifacts of a specification refer to each other, to the specification and to its result,
with one element binding for each line that is not empty. -/
structure Linked (spec : ScenarioSpec) (result : BddCompilationResult) (e : Emission) : Prop where
  candidate_spec : e.candidate.scenarioSpecRef = spec.scenarioSpecId
  candidate_artifact : e.candidate.gherkinArtifactRef = e.artifact.artifactId
  candidate_manifest : e.candidate.traceabilityManifestRef = e.manifest.manifestId
  manifest_spec : e.manifest.scenarioSpecRef = spec.scenarioSpecId
  manifest_artifact : e.manifest.gherkinArtifactRef = e.artifact.artifactId
  result_candidate : result.candidateBddRef = some e.candidate.candidateBddId
  result_digest : result.outputDigest = some e.candidate.contentDigest
  bindings : e.manifest.elementBindings.length
    = ((e.artifact.text.splitOn '\n').filter fun line => line ≠ []).length

/-- What `emit` returns for rendered elements. -/
structure Emits (nfc : LineNfc) (spec : ScenarioSpec) (elements : List RenderedElement)
    (e : Emission) : Prop where
  text : e.artifact.text = artifactText nfc (partsOf elements)
  bindings : e.manifest.elementBindings = elements.zipIdx.map fun item =>
    elementBinding spec item.1 item.2
  candidate_spec : e.candidate.scenarioSpecRef = spec.scenarioSpecId
  candidate_artifact : e.candidate.gherkinArtifactRef = e.artifact.artifactId
  candidate_manifest : e.candidate.traceabilityManifestRef = e.manifest.manifestId
  manifest_spec : e.manifest.scenarioSpecRef = spec.scenarioSpecId
  manifest_artifact : e.manifest.gherkinArtifactRef = e.artifact.artifactId

variable {gates : Gates}

theorem emit_returns {elements : List RenderedElement}
    (hrender : renderElements spec (k.requirementsOf spec) gates.mappings = .ok elements)
    (hnul : ¬ ∃ e ∈ elements, '\x00' ∈ e.phrase) :
    ∃ e, emit nfc.toNfc k spec gates = .ok e ∧ Emits nfc spec elements e := by
  obtain ⟨f, s, a, feature, scenario, action, preconditions, effects, hrun⟩ :=
    renderElements_eq_ok.1 hrender
  have hnul' : ¬ ∃ part ∈ partsOf elements, '\x00' ∈ part.2 := by
    rintro ⟨part, hpart, hin⟩
    obtain ⟨e, he, rfl⟩ := List.mem_map.1 hpart
    exact hnul ⟨e, he, hin⟩
  have htext : canonicalGherkinText nfc.toNfc (joinedLines elements)
      = .ok (artifactText nfc (partsOf elements)) := by
    rw [joinedLines_eq, canonicalGherkinText_parts hrun.titled,
      if_neg fun h => hnul' (nul_linesOfParts.1 h)]
  have hdigest : ∃ digest, gherkinDigest nfc.toNfc (artifactText nfc (partsOf elements))
      = .ok digest := by
    rw [gherkinDigest, canonicalGherkinText_artifactText hrun.titled hnul']
    exact ⟨_, rfl⟩
  obtain ⟨digest, hdigest⟩ := hdigest
  have hlength : (elements.zipIdx.map fun item => elementBinding spec item.1 item.2).length
      = 3 + spec.preconditions.length + spec.expectedEffects.length := by
    rw [List.length_map, List.length_zipIdx, hrun.length]
  rw [emit, render, hrender]
  simp only [bind, Except.bind, htext, hdigest, pure, Except.pure, bne_self_eq_false, Bool.or_false]
  rw [if_neg, if_neg, if_neg]
  · exact ⟨_, rfl, rfl, rfl, rfl, rfl, rfl, rfl, rfl⟩
  · rw [Bool.not_eq_true, Bool.not_eq_false']
    exact contentValid_digestText _ _
  · exact not_not.2 hlength
  · rw [Bool.not_eq_true, Bool.not_eq_false']
    exact contentValid_digestText _ _

theorem elements_of_emit {e : Emission} (h : emit nfc.toNfc k spec gates = .ok e) :
    ∃ elements, renderElements spec (k.requirementsOf spec) gates.mappings = .ok elements ∧
      ¬ ∃ e ∈ elements, '\x00' ∈ e.phrase := by
  rw [emit] at h
  obtain ⟨rendered, hrender, -⟩ := bind_eq_ok.1 h
  rw [render] at hrender
  obtain ⟨elements, helements, hrender⟩ := bind_eq_ok.1 hrender
  obtain ⟨text, htext, -⟩ := bind_eq_ok.1 hrender
  refine ⟨elements, helements, fun hnul => ?_⟩
  obtain ⟨f, s, a, feature, scenario, action, preconditions, effects, hrun⟩ :=
    renderElements_eq_ok.1 helements
  obtain ⟨e', he', hin⟩ := hnul
  rw [joinedLines_eq, canonicalGherkinText_parts hrun.titled, if_pos] at htext
  · cases htext
  · exact nul_linesOfParts.2 ⟨_, List.mem_map.2 ⟨e', he', rfl⟩, hin⟩

theorem linked_of_emits {elements : List RenderedElement} {e : Emission}
    (hrender : renderElements spec (k.requirementsOf spec) gates.mappings = .ok elements)
    (h : Emits nfc spec elements e) :
    Linked spec (compilationResult nfc.toNfc k spec gates .succeeded []
      (some e.candidate.candidateBddId) (some e.candidate.contentDigest)) e := by
  obtain ⟨f, s, a, feature, scenario, action, preconditions, effects, hrun⟩ :=
    renderElements_eq_ok.1 hrender
  refine ⟨h.candidate_spec, h.candidate_artifact, h.candidate_manifest, h.manifest_spec,
    h.manifest_artifact, rfl, rfl, ?_⟩
  rw [h.bindings, h.text, splitOn_artifactText hrun.titled, List.filter_append, List.length_append,
    length_nonempty_lines, normalizeParts, partsOf]
  simp

/-! ## The property -/

/-- One specification with its gates, its result and what is emitted for it. -/
structure Round where
  spec : ScenarioSpec
  gates : Gates
  result : BddCompilationResult
  emission : Option Emission

/-- The result of a round is decided by its blockers, and the artifacts exist only if it
succeeded. -/
def RoundExact (r : Round) : Prop :=
  r.result.scenarioSpecRef = r.spec.scenarioSpecId ∧
    ((r.gates.blockers = [] ∧ r.result.compilationStatus = .succeeded ∧
        ∃ e, r.emission = some e ∧ Linked r.spec r.result e) ∨
      (r.gates.blockers ≠ [] ∧ r.result.compilationStatus = .blocked ∧
        r.result.candidateBddRef = none ∧ r.emission = none))

/-- The gate is exact in what a call returned: one round for every specification, and nothing else
in the batch than what the rounds report and emit. -/
def GateExact (nfc : LineNfc) (batch : ScenarioSpecBatchResult) (v : VocabularySnapshot)
    (c : ClassificationSnapshot) (effectiveTimestamp : Option String) (out : BddCompilationBatch) :
    Prop :=
  ∃ (k : Compilation) (rounds : List Round), Prepared nfc.toNfc batch v c effectiveTimestamp k ∧
    (rounds.map Round.spec).Perm batch.scenarioSpecs ∧
    out.compilationResults.Perm (rounds.map Round.result) ∧
    out.gherkinArtifacts.Perm ((rounds.filterMap Round.emission).map Emission.artifact) ∧
    out.traceabilityManifests.Perm ((rounds.filterMap Round.emission).map Emission.manifest) ∧
    out.candidateBdds.Perm ((rounds.filterMap Round.emission).map Emission.candidate) ∧
    ∀ r ∈ rounds, specGates nfc.toNfc k r.spec = .ok r.gates ∧ RoundExact r

/-! ## The condition -/

/-- Every template the mapping gate reads is well formed; and of a specification without blockers,
the identifiers of the requirements stand for different slots and the templates have no replacement
field and no NUL. -/
def Renderable (nfc : LineNfc) (batch : ScenarioSpecBatchResult) (v : VocabularySnapshot)
    (c : ClassificationSnapshot) (effectiveTimestamp : Option String) (compileAt : String) : Prop :=
  ∀ spec ∈ batch.scenarioSpecs, ∀ rs, vocabularyRequirements nfc.toNfc spec = .ok rs →
    (∀ r ∈ rs, ∀ m, promotableMappings v compileAt r = [m] → WellFormed m.phraseTemplate.toList) ∧
    ∀ k gates, Prepared nfc.toNfc batch v c effectiveTimestamp k →
      specGates nfc.toNfc k spec = .ok gates → gates.blockers = [] →
      IdsApart rs ∧ ∀ r ∈ rs, ∀ m, promotableMappings v compileAt r = [m] →
        Fieldless m.phraseTemplate.toList ∧ '\x00' ∉ m.phraseTemplate.toList

/-! ## What returns for every batch of the scenario compiler -/

theorem export_returns (h : FromScenarioCompiler nfc.toNfc batch) :
    ∃ manifest, exportRequirements nfc.toNfc batch = .ok manifest := by
  obtain ⟨vocabulary, hvocabulary⟩ : ∃ ys, (sortBy ScenarioSpec.scenarioSpecId
      batch.scenarioSpecs).mapM (vocabularyRequirements nfc.toNfc) = .ok ys := by
    apply mapM_returns
    intro spec hspec
    obtain ⟨ds, hds, -⟩ := definitions_spec h (mem_sortBy.1 hspec)
    exact ⟨_, hds⟩
  obtain ⟨classification, hclassification⟩ : ∃ ys,
      (sortBy ClassificationObservation.classificationObservationId (usedObservations batch)).mapM
        (classificationRequirement nfc.toNfc batch.scenarioSpecs) = .ok ys := by
    apply mapM_returns
    intro observation hobservation
    rw [mem_sortBy, usedObservations, List.mem_filterMap] at hobservation
    obtain ⟨wanted, -, hfound⟩ := hobservation
    have hprojects := h.observations observation (mem_of_findBy hfound).1
    rw [classificationRequirement, digestOf, canonicalDigest_eq hprojects]
    exact ⟨_, rfl⟩
  rw [exportRequirements, hvocabulary]
  simp only [bind, Except.bind, hclassification]
  exact ⟨_, rfl⟩

theorem nestedInvalid_returns (h : FromScenarioCompiler nfc.toNfc batch) :
    ∃ invalid, nestedInvalid nfc.toNfc batch = .ok invalid := by
  have hbudgets : ∀ reports : List ScenarioCompilerBudgetReport,
      (∀ b ∈ reports, b ∈ batch.budgetReports) →
      ∃ invalid, (reports.anyM fun b => do
        let valid ← digestValid nfc.toNfc (.record b.content) b.contentDigest
        return !valid) = .ok invalid := by
    intro reports
    induction reports with
    | nil => exact fun _ => ⟨_, rfl⟩
    | cons b reports ih =>
      intro hmem
      rw [List.forall_mem_cons] at hmem
      obtain ⟨invalid, hinvalid⟩ := ih hmem.2
      rw [List.anyM, digestValid_eq (h.budgets b hmem.1)]
      simp only [bind, Except.bind, pure, Except.pure] at hinvalid ⊢
      cases contentValid nfc.toNfc b.content b.contentDigest with
      | true => exact ⟨invalid, hinvalid⟩
      | false => exact ⟨_, rfl⟩
  rw [nestedInvalid]
  split
  · exact ⟨_, rfl⟩
  · split
    · exact ⟨_, rfl⟩
    · split
      · exact ⟨_, rfl⟩
      · exact hbudgets _ fun _ hb => hb

theorem compilation_returns (h : FromScenarioCompiler nfc.toNfc batch)
    (hat : compileInstant v c effectiveTimestamp = .ok compileAt) :
    ∃ k, compilation nfc.toNfc batch v c effectiveTimestamp = .ok k ∧ k.compileAt = compileAt := by
  obtain ⟨manifest, hmanifest⟩ := export_returns h
  obtain ⟨invalid, hinvalid⟩ := nestedInvalid_returns h
  have hblockers : ∃ found, batchBlockers nfc.toNfc batch = .ok found := by
    rw [batchBlockers, digestValid_eq h.canonical]
    simp only [bind, Except.bind, hinvalid]
    exact ⟨_, rfl⟩
  obtain ⟨found, hfound⟩ := hblockers
  rw [compilation, hmanifest]
  simp only [bind, Except.bind, hfound, hat]
  exact ⟨_, rfl, rfl⟩

theorem nestedBlockers_returns (h : FromScenarioCompiler nfc.toNfc batch) (scope : AuthorityScope) :
    ∃ nested, nestedBlockers nfc.toNfc batch scope spec = .ok nested := by
  rw [nestedBlockers]
  split
  · next closure resolution budget _ _ hbudget =>
      have hvalid : ∃ valid, referredValid nfc.toNfc closure resolution budget = .ok valid := by
        rw [referredValid, digestValid_eq (h.budgets budget (mem_of_findBy hbudget).1)]
        split
        · exact ⟨_, rfl⟩
        · split <;> exact ⟨_, rfl⟩
      obtain ⟨valid, hvalid⟩ := hvalid
      rw [hvalid]
      exact ⟨_, rfl⟩
  · exact ⟨_, rfl⟩

theorem classifyPrecondition_returns (h : FromScenarioCompiler nfc.toNfc batch)
    (p : ScenarioPrecondition) : ∃ gate,
      classifyPrecondition nfc.toNfc batch.classificationObservations c compileAt p = .ok gate := by
  rw [classifyPrecondition]
  split
  · exact ⟨_, rfl⟩
  · simp only
    split
    · exact ⟨_, rfl⟩
    · next observation hfound =>
        split
        · exact ⟨_, rfl⟩
        · split
          · exact ⟨_, rfl⟩
          · rw [digestOf, canonicalDigest_eq (h.observations observation (mem_of_findBy hfound).1)]
            exact ⟨_, rfl⟩
          · exact ⟨_, rfl⟩

theorem specGates_returns_iff (h : FromScenarioCompiler nfc.toNfc batch)
    (hk : Prepared nfc.toNfc batch v c effectiveTimestamp k) :
    (∃ gates, specGates nfc.toNfc k spec = .ok gates) ↔ ∀ r ∈ k.requirementsOf spec, ∀ m,
      promotableMappings v k.compileAt r = [m] → WellFormed m.phraseTemplate.toList := by
  constructor
  · rintro ⟨gates, hgates⟩ r hr
    obtain ⟨nested, approvals, mappings, hb⟩ := specGates_eq_ok.1 hgates
    have hrounds := hb.mappings_eq
    rw [hk.vocabulary] at hrounds
    obtain ⟨gate, -, hgate⟩ := exists_of_mapM hrounds hr
    exact mapRequirement_returns_iff.1 ⟨gate, hgate⟩
  · intro hwell
    obtain ⟨nested, hnested⟩ := @nestedBlockers_returns nfc batch spec h k.vocabulary.authorityScope
    obtain ⟨approvals, happrovals⟩ : ∃ ys, spec.preconditions.mapM
        (classifyPrecondition nfc.toNfc batch.classificationObservations k.classification
          k.compileAt) = .ok ys :=
      mapM_returns fun p _ => classifyPrecondition_returns h p
    obtain ⟨mappings, hmappings⟩ : ∃ ys, (k.requirementsOf spec).mapM
        (mapRequirement v k.compileAt spec) = .ok ys :=
      mapM_returns fun r hr => mapRequirement_returns_iff.2 (hwell r hr)
    refine ⟨_, specGates_eq_ok.2 ⟨nested, approvals, mappings, ?_, ?_, ?_, rfl⟩⟩
    · rw [hk.batch_eq]
      exact hnested
    · rw [hk.batch_eq]
      exact happrovals
    · rw [hk.vocabulary]
      exact hmappings

/-! ## The guarded block of an unblocked specification -/

/-- An unblocked specification is emitted iff its requirements and phrases allow it. -/
theorem emit_returns_iff (hrs : Requires nfc spec (k.requirementsOf spec))
    (hgates : specGates nfc.toNfc k spec = .ok gates) (hempty : gates.blockers = []) :
    (∃ e, emit nfc.toNfc k spec gates = .ok e) ↔ IdsApart (k.requirementsOf spec) ∧
      ∀ r ∈ k.requirementsOf spec, ∀ m, promotableMappings k.vocabulary k.compileAt r = [m] →
        Fieldless m.phraseTemplate.toList ∧ '\x00' ∉ m.phraseTemplate.toList := by
  obtain ⟨nested, approvals, mappings, hb⟩ := specGates_eq_ok.1 hgates
  have hselects := selects_of_unblocked hb hempty
  constructor
  · rintro ⟨e, he⟩
    obtain ⟨elements, hrender, hnul⟩ := elements_of_emit he
    obtain ⟨f, s, a, feature, scenario, action, preconditions, effects, hrun⟩ :=
      renderElements_eq_ok.1 hrender
    refine ⟨hrun.apart hrs, fun r hr m hm => ?_⟩
    obtain ⟨element, helement, rfl⟩ := hrun.mapping_rendered hrs hselects hr hm
    have hphrase := (hrun.elementOf helement).phrase
    refine ⟨formatTemplate_ok_iff.1 ⟨_, hphrase⟩, fun hin => hnul ⟨element, helement, ?_⟩⟩
    exact ((formatTemplate_unescapes hphrase).mem _).2 hin
  · rintro ⟨hapart, hprintable⟩
    obtain ⟨elements, hrender⟩ := renderElements_returns hrs hapart hselects
      fun r hr m hm => (hprintable r hr m hm).1
    obtain ⟨f, s, a, feature, scenario, action, preconditions, effects, hrun⟩ :=
      renderElements_eq_ok.1 hrender
    have hnul : ¬ ∃ e ∈ elements, '\x00' ∈ e.phrase := by
      rintro ⟨e, he, hin⟩
      have helement := hrun.elementOf he
      obtain ⟨kind, hkind⟩ := helement.kind
      obtain ⟨m, hm, r, hr, -, hone⟩ := mappingOf_spec hselects (mem_ofKind hkind).1
      have hsame := hm.symm.trans helement.mapping
      cases hsame
      exact (hprintable r hr _ hone).2 (((formatTemplate_unescapes helement.phrase).mem _).1 hin)
    obtain ⟨e, he, -⟩ := emit_returns hrender hnul
    exact ⟨e, he⟩

theorem exists_round (hgates : specGates nfc.toNfc k spec = .ok gates)
    (hemit : gates.blockers = [] → ∃ e, emit nfc.toNfc k spec gates = .ok e) :
    ∃ r : Round, r.spec = spec ∧ specGates nfc.toNfc k r.spec = .ok r.gates ∧
      compileSpec nfc.toNfc k spec = .ok (r.result, r.emission) ∧ RoundExact r := by
  by_cases hempty : gates.blockers = []
  · obtain ⟨e, he⟩ := hemit hempty
    obtain ⟨elements, hrender, hnul⟩ := elements_of_emit he
    obtain ⟨e', he', hemits⟩ := emit_returns hrender hnul
    have hsame := he.symm.trans he'
    cases hsame
    refine ⟨⟨spec, gates, _, some e⟩, rfl, hgates, ?_, rfl,
      .inl ⟨hempty, rfl, e, rfl, linked_of_emits hrender hemits⟩⟩
    rw [compileSpec_eq hgates, if_neg (not_not.2 hempty), he]
    rfl
  · refine
      ⟨⟨spec, gates, compilationResult nfc.toNfc k spec gates .blocked gates.blockers none none,
      none⟩, rfl, hgates, ?_, rfl, .inr ⟨hempty, rfl, rfl, rfl⟩⟩
    rw [compileSpec_eq hgates, if_pos hempty]

theorem emit_of_round {result : BddCompilationResult} {emission : Option Emission}
    (hgates : specGates nfc.toNfc k spec = .ok gates) (hempty : gates.blockers = [])
    (hcompile : compileSpec nfc.toNfc k spec = .ok (result, emission))
    (hstatus : result.compilationStatus ≠ .failed) :
    ∃ e, emit nfc.toNfc k spec gates = .ok e := by
  rw [compileSpec_eq hgates, if_neg (not_not.2 hempty)] at hcompile
  split at hcompile
  · next e he => exact ⟨e, he⟩
  · cases hcompile
  · cases hcompile
    exact absurd rfl hstatus

/-! ## The gate -/

theorem requirements_in_batch (h : FromScenarioCompiler nfc.toNfc batch)
    (hk : Prepared nfc.toNfc batch v c effectiveTimestamp k) (hs : spec ∈ batch.scenarioSpecs) :
    ∃ rs, vocabularyRequirements nfc.toNfc spec = .ok rs ∧
      (∀ r, r ∈ k.requirementsOf spec ↔ r ∈ rs) ∧ Requires nfc spec (k.requirementsOf spec) := by
  obtain ⟨ds, hds, -⟩ := definitions_spec h hs
  have hmem := requirementsOf_own h hs hk hds
  exact ⟨_, hds, hmem, (requires_of_batch h hs hds).of_mem_iff hmem⟩

/-- **The gate is total and exact** on the snapshots whose templates can be read and printed. -/
theorem gateExact_of_renderable (h : FromScenarioCompiler nfc.toNfc batch)
    (hat : compileInstant v c effectiveTimestamp = .ok compileAt)
    (hrenderable : Renderable nfc batch v c effectiveTimestamp compileAt) :
    ∃ out, compileAll nfc.toNfc batch v c effectiveTimestamp = .ok out ∧
      GateExact nfc batch v c effectiveTimestamp out := by
  obtain ⟨k, hcompilation, rfl⟩ := compilation_returns h hat
  have hk := prepared_of_compilation hcompilation
  have hround : ∀ spec ∈ sortBy ScenarioSpec.scenarioSpecId batch.scenarioSpecs, ∃ r : Round,
      r.spec = spec ∧ specGates nfc.toNfc k r.spec = .ok r.gates ∧
        compileSpec nfc.toNfc k spec = .ok (r.result, r.emission) ∧ RoundExact r := by
    intro spec hspec
    rw [mem_sortBy] at hspec
    obtain ⟨rs, hrs, hmem, hrequires⟩ := requirements_in_batch h hk hspec
    obtain ⟨hwell, hprintable⟩ := hrenderable spec hspec rs hrs
    obtain ⟨gates, hgates⟩ := (specGates_returns_iff h hk).2 fun r hr => hwell r ((hmem r).1 hr)
    refine exists_round hgates fun hempty => (emit_returns_iff hrequires hgates hempty).2 ?_
    obtain ⟨hapart, hprint⟩ := hprintable k gates hk hgates hempty
    rw [hk.vocabulary]
    exact ⟨fun r hr r' hr' => hapart r ((hmem r).1 hr) r' ((hmem r').1 hr'),
      fun r hr => hprint r ((hmem r).1 hr)⟩
  obtain ⟨rounds, hrounds⟩ := exists_forall₂ hround
  have hmap : (sortBy ScenarioSpec.scenarioSpecId batch.scenarioSpecs).mapM
      (compileSpec nfc.toNfc k) = .ok (rounds.map fun r => (r.result, r.emission)) := by
    rw [mapM_eq_ok, List.forall₂_map_right_iff]
    exact hrounds.imp fun spec r hr => hr.2.2.1
  have hspecs : rounds.map Round.spec = sortBy ScenarioSpec.scenarioSpecId batch.scenarioSpecs := by
    clear hround hmap
    generalize sortBy ScenarioSpec.scenarioSpecId batch.scenarioSpecs = specs at hrounds
    induction hrounds with
    | nil => rfl
    | cons hr _ ih => rw [List.map_cons, hr.1, ih]
  have hexact : ∀ r ∈ rounds, specGates nfc.toNfc k r.spec = .ok r.gates ∧ RoundExact r := by
    clear hround hmap hspecs
    generalize sortBy ScenarioSpec.scenarioSpecId batch.scenarioSpecs = specs at hrounds
    induction hrounds with
    | nil => exact fun r hr => absurd hr List.not_mem_nil
    | cons hr _ ih =>
      rw [List.forall_mem_cons]
      exact ⟨⟨hr.2.1, hr.2.2.2⟩, ih⟩
  have hemissions : (rounds.map fun r => (r.result, r.emission)).filterMap Prod.snd
      = rounds.filterMap Round.emission := by
    rw [List.filterMap_map]
    rfl
  have hresults : (rounds.map fun r => (r.result, r.emission)).map Prod.fst
      = rounds.map Round.result := by
    rw [List.map_map]
    rfl
  have hrun : compileAll nfc.toNfc batch v c effectiveTimestamp = .ok
      ⟨sortBy GherkinArtifact.artifactId ((rounds.filterMap Round.emission).map Emission.artifact),
        sortBy TraceabilityManifest.manifestId
          ((rounds.filterMap Round.emission).map Emission.manifest),
        sortBy CandidateBdd.candidateBddId
          ((rounds.filterMap Round.emission).map Emission.candidate),
        sortBy BddCompilationResult.scenarioSpecRef (rounds.map Round.result)⟩ := by
    rw [compileAll, hcompilation]
    simp only [bind, Except.bind, hmap, hemissions, hresults]
    rfl
  refine ⟨_, hrun, k, rounds, hk, ?_, sortBy_perm _ _, sortBy_perm _ _, sortBy_perm _ _,
    sortBy_perm _ _, hexact⟩
  rw [hspecs]
  exact sortBy_perm _ _

theorem wellFormed_of_compileAll (h : FromScenarioCompiler nfc.toNfc batch)
    (hat : compileInstant v c effectiveTimestamp = .ok compileAt) {out : BddCompilationBatch}
    (hrun : compileAll nfc.toNfc batch v c effectiveTimestamp = .ok out)
    (hspec : spec ∈ batch.scenarioSpecs) {rs : List VocabularyRequirement}
    (hrs : vocabularyRequirements nfc.toNfc spec = .ok rs) {r : VocabularyRequirement} (hr : r ∈ rs)
    {m : VocabularyMapping} (hm : promotableMappings v compileAt r = [m]) :
    WellFormed m.phraseTemplate.toList := by
  obtain ⟨k, results, hk, hresults, rfl⟩ := rounds_of_compileAll hrun
  have hinstant : k.compileAt = compileAt := Except.ok.inj (hk.instant.symm.trans hat)
  obtain ⟨⟨result, emission⟩, -, hcompile⟩ := exists_of_mapM hresults (mem_sortBy.2 hspec)
  obtain ⟨rs', hrs', hown, -⟩ := requirements_in_batch h hk hspec
  have hsame : rs = rs' := Except.ok.inj (hrs.symm.trans hrs')
  obtain ⟨gates, hgates, -⟩ := blockers_of_compileSpec hcompile
  rw [← hinstant] at hm
  exact (specGates_returns_iff h hk).1 ⟨gates, hgates⟩ r ((hown r).2 (hsame ▸ hr)) m hm

/-- An exact gate has only renderable specifications. -/
theorem renderable_of_gateExact (h : FromScenarioCompiler nfc.toNfc batch)
    (hat : compileInstant v c effectiveTimestamp = .ok compileAt) {out : BddCompilationBatch}
    (hrun : compileAll nfc.toNfc batch v c effectiveTimestamp = .ok out)
    (hexact : GateExact nfc batch v c effectiveTimestamp out) :
    Renderable nfc batch v c effectiveTimestamp compileAt := by
  intro spec hspec rs hrs
  obtain ⟨k, results, hk, hresults, rfl⟩ := rounds_of_compileAll hrun
  have hinstant : k.compileAt = compileAt := Except.ok.inj (hk.instant.symm.trans hat)
  obtain ⟨⟨result, emission⟩, hmem, hcompile⟩ := exists_of_mapM hresults (mem_sortBy.2 hspec)
  obtain ⟨rs', hrs', hown, hrequires⟩ := requirements_in_batch h hk hspec
  have hsame := hrs.symm.trans hrs'
  cases hsame
  have hgates : ∃ gates, specGates nfc.toNfc k spec = .ok gates := by
    obtain ⟨gates, hgates, -⟩ := blockers_of_compileSpec hcompile
    exact ⟨gates, hgates⟩
  refine ⟨fun r hr => ?_, fun k' gates hk' hgates' hempty => ?_⟩
  · rw [← hinstant]
    exact (specGates_returns_iff h hk).1 hgates r ((hown r).2 hr)
  · have hkeq : k' = k := by
      obtain ⟨k₁, k₂, k₃, k₄, ⟨found, hfound, hblockers⟩, k₅⟩ := hk
      obtain ⟨k₁', k₂', k₃', k₄', ⟨found', hfound', hblockers'⟩, k₅'⟩ := hk'
      have hfoundEq := Except.ok.inj (hfound.symm.trans hfound')
      have hexportEq := Except.ok.inj (k₄.symm.trans k₄')
      have hinstantEq := Except.ok.inj (k₅.symm.trans k₅')
      cases k
      cases k'
      simp only at *
      subst k₁ k₂ k₃ k₁' k₂' k₃' hexportEq hinstantEq hblockers hblockers' hfoundEq
      rfl
    subst hkeq
    -- no round of the batch failed
    have hstatus : result.compilationStatus ≠ .failed := by
      obtain ⟨k₀, rounds, -, -, hperm, -, -, -, hall⟩ := hexact
      have hin : result ∈ rounds.map Round.result := by
        apply hperm.mem_iff.1
        exact mem_sortBy.2 (List.mem_map.2 ⟨_, hmem, rfl⟩)
      obtain ⟨r, hr, rfl⟩ := List.mem_map.1 hin
      obtain ⟨-, -, ⟨-, hsucceeded, -⟩ | ⟨-, hblocked, -⟩⟩ := hall r hr
      · rw [hsucceeded]
        nofun
      · rw [hblocked]
        nofun
    have hemit := emit_of_round hgates' hempty hcompile hstatus
    obtain ⟨hapart, hprint⟩ := (emit_returns_iff hrequires hgates' hempty).1 hemit
    rw [hk.vocabulary, hinstant] at hprint
    exact ⟨fun r hr r' hr' => hapart r ((hown r).2 hr) r' ((hown r').2 hr'),
      fun r hr => hprint r ((hown r).2 hr)⟩

/-- **Totality and exactness of the gate, exactly**: on a batch of the scenario compiler a call
returns, with one result for every specification, success for those without blockers and no failure,
and the linked artifacts of those and no others, exactly when every template the gate reads is well
formed and every specification without blockers has distinguishable requirements and templates
without fields and NULs. -/
theorem gate_total_and_exact_iff (h : FromScenarioCompiler nfc.toNfc batch)
    (hat : compileInstant v c effectiveTimestamp = .ok compileAt) :
    (∃ out, compileAll nfc.toNfc batch v c effectiveTimestamp = .ok out ∧
      GateExact nfc batch v c effectiveTimestamp out) ↔
      Renderable nfc batch v c effectiveTimestamp compileAt :=
  ⟨fun ⟨_, hrun, hexact⟩ => renderable_of_gateExact h hat hrun hexact,
    gateExact_of_renderable h hat⟩

/-! ## A template that is not well formed -/

theorem brace_approved : ApprovedPhrase "\x7b".toList :=
  ⟨by decide, by decide, by decide, by decide⟩

theorem brace_malformed : ¬ WellFormed "\x7b".toList := by
  intro h
  have hnone : (markups "\x7b".toList).2.isNone = false := by decide +kernel
  rw [h] at hnone
  cases hnone

theorem promotable_slot {specId procedure effect template : String}
    {phrase : ApprovedPhrase template.toList} {slots : List ApprovedSlot} {slot : ApprovedSlot}
    {rs : List VocabularyRequirement}
    (hrs : Requires nfc ((singleSpec specId procedure effect).withDigest nfc.toNfc) rs)
    (hneeds : Needs ((singleSpec specId procedure effect).withDigest nfc.toNfc) slot.kind
      slot.source) :
    ∃ r ∈ rs, r.slotKind = slot.kind ∧ r.sourceRef = slot.source ∧
      promotableMappings (manualVocabulary nfc.toNfc specId template phrase slots)
          "2026-01-01T00:00:00.000000Z" r
        = (slots.filter fun other => requirementId specId other.kind other.source
            = requirementId specId slot.kind slot.source).map
              (manualMapping nfc.toNfc specId template phrase) := by
  obtain ⟨r, hr, hkind, hsource⟩ := hrs.complete _ _ hneeds
  refine ⟨r, hr, hkind, hsource, ?_⟩
  rw [promotable_manual, hrs.identified r hr, hkind, hsource]
  rfl

/-- The model accepts an opening brace as a phrase; the run that reads it raises. -/
theorem brace_raises :
    FromScenarioCompiler asciiLineNfc.toNfc
        (singleBatch asciiLineNfc.toNfc "scenario" "procedure" "effect") ∧
      ¬ ∃ out, compileAll asciiLineNfc.toNfc
          (singleBatch asciiLineNfc.toNfc "scenario" "procedure" "effect")
          (manualVocabulary asciiLineNfc.toNfc "scenario" "\x7b" brace_approved
            [⟨"mapping", .featureTitle, "procedure"⟩])
          (emptyClassification asciiLineNfc.toNfc) none = .ok out := by
  have hfrom := @fromScenarioCompiler_single asciiLineNfc.toNfc "scenario" "procedure" "effect"
    (by decide) (by decide)
  refine ⟨hfrom, ?_⟩
  rintro ⟨out, hrun⟩
  obtain ⟨ds, hrs, -⟩ := definitions_spec hfrom (List.mem_singleton_self _)
  obtain ⟨r, hr, -, -, hone⟩ := @promotable_slot asciiLineNfc "scenario" "procedure" "effect" "\x7b"
    brace_approved [⟨"mapping", .featureTitle, "procedure"⟩] ⟨"mapping", .featureTitle, "procedure"⟩
    _ (requires_of_batch hfrom (List.mem_singleton_self _) hrs) rfl
  rw [List.filter_cons_of_pos (by simp), List.filter_nil, List.map_singleton] at hone
  exact brace_malformed (wellFormed_of_compileAll hfrom (compileInstant_same rfl rfl) hrun
    (List.mem_singleton_self _) hrs hr hone)

theorem gate_total_and_exact_iff_brace :
    (∃ out, compileAll asciiLineNfc.toNfc
        (singleBatch asciiLineNfc.toNfc "scenario" "procedure" "effect")
        (manualVocabulary asciiLineNfc.toNfc "scenario" "\x7b" brace_approved
          [⟨"mapping", .featureTitle, "procedure"⟩])
        (emptyClassification asciiLineNfc.toNfc) none = .ok out ∧
      GateExact asciiLineNfc (singleBatch asciiLineNfc.toNfc "scenario" "procedure" "effect")
        (manualVocabulary asciiLineNfc.toNfc "scenario" "\x7b" brace_approved
          [⟨"mapping", .featureTitle, "procedure"⟩])
        (emptyClassification asciiLineNfc.toNfc) none out) ↔
      Renderable asciiLineNfc (singleBatch asciiLineNfc.toNfc "scenario" "procedure" "effect")
        (manualVocabulary asciiLineNfc.toNfc "scenario" "\x7b" brace_approved
          [⟨"mapping", .featureTitle, "procedure"⟩])
        (emptyClassification asciiLineNfc.toNfc) none "2026-01-01T00:00:00.000000Z" :=
  gate_total_and_exact_iff (fromScenarioCompiler_single (by decide) (by decide))
    (compileInstant_same rfl rfl)

/-! ## A specification that is compiled -/

section

variable {specId procedure effect template : String} {phrase : ApprovedPhrase template.toList}

/-- The batch of one scenario compiles. -/
theorem compiles_single (hid : ':' ∉ specId.toList) (heffect : ':' ∉ effect.toList)
    (hapart : ((singleSlots specId procedure effect).map fun slot =>
      requirementId specId slot.kind slot.source).Nodup)
    (hfieldless : Fieldless template.toList) (hnul : '\x00' ∉ template.toList) :
    ∃ k result e, compilation nfc.toNfc (singleBatch nfc.toNfc specId procedure effect)
        (manualVocabulary nfc.toNfc specId template phrase (singleSlots specId procedure effect))
        (emptyClassification nfc.toNfc) none = .ok k ∧
      compileSpec nfc.toNfc k ((singleSpec specId procedure effect).withDigest nfc.toNfc)
        = .ok (result, some e) ∧ result.compilationStatus = .succeeded ∧
      k.compileAt = "2026-01-01T00:00:00.000000Z" := by
  have hfrom := @fromScenarioCompiler_single nfc.toNfc specId procedure effect hid heffect
  have hspec : (singleSpec specId procedure effect).withDigest nfc.toNfc
      ∈ (singleBatch nfc.toNfc specId procedure effect).scenarioSpecs := List.mem_singleton_self _
  obtain ⟨k, hcompilation, hinstant⟩ := @compilation_returns nfc _
    (manualVocabulary nfc.toNfc specId template phrase (singleSlots specId procedure effect))
    (emptyClassification nfc.toNfc) none "2026-01-01T00:00:00.000000Z" hfrom
    (compileInstant_same rfl rfl)
  have hk := prepared_of_compilation hcompilation
  obtain ⟨rs, hrs, hown, hrequires⟩ := requirements_in_batch hfrom hk hspec
  have hslot : ∀ r ∈ k.requirementsOf ((singleSpec specId procedure effect).withDigest nfc.toNfc),
      ∃ slot ∈ singleSlots specId procedure effect, slot.kind = r.slotKind ∧
        slot.source = r.sourceRef ∧
        r.requirementId = requirementId specId slot.kind slot.source := by
    intro r hr
    obtain ⟨slot, hmem, hkind, hsource⟩ := exists_slot (hrequires.sound r hr)
    refine ⟨slot, hmem, hkind, hsource, ?_⟩
    rw [hrequires.identified r hr, hkind, hsource]
    rfl
  obtain ⟨gates, hgates, hempty⟩ := unblocked_single hid heffect hk rfl snapshotBlockers_manual
    fun r hr => by
      obtain ⟨slot, hmem, hkind, hsource, hreq⟩ := hslot r hr
      have hone := filter_slot hapart hmem
      rw [← hreq] at hone
      rw [hinstant]
      refine ⟨_, mapRequirement_manual hfieldless hone fun heq => ?_, rfl⟩
      have hneeds := hrequires.sound r hr
      rw [heq] at hneeds
      obtain ⟨e, he, hsource⟩ := hneeds
      rw [← hsource, List.mem_singleton.1 he]
      rfl
  have hprintable : IdsApart (k.requirementsOf ((singleSpec specId procedure effect).withDigest
      nfc.toNfc)) := by
    intro r hr r' hr' hsame
    obtain ⟨slot, hmem, hkind, hsource, hreq⟩ := hslot r hr
    obtain ⟨slot', hmem', hkind', hsource', hreq'⟩ := hslot r' hr'
    rw [hreq, hreq'] at hsame
    have heq : slot = slot' := List.inj_on_of_nodup_map hapart hmem hmem' hsame
    exact ⟨by rw [← hkind, ← hkind', heq], by rw [← hsource, ← hsource', heq]⟩
  obtain ⟨e, he⟩ := (emit_returns_iff hrequires hgates hempty).2 ⟨hprintable, fun r hr m hm => by
    rw [hk.vocabulary, hinstant, promotable_manual] at hm
    obtain ⟨slot, -, rfl⟩ := List.mem_map.1 (hm ▸ List.mem_singleton_self m)
    exact ⟨hfieldless, hnul⟩⟩
  refine ⟨k, compilationResult nfc.toNfc k
    ((singleSpec specId procedure effect).withDigest nfc.toNfc) gates .succeeded []
    (some e.candidate.candidateBddId) (some e.candidate.contentDigest), e, hcompilation, ?_, rfl,
    hinstant⟩
  rw [compileSpec_eq hgates, if_neg (not_not.2 hempty), he]

end

end AtlasDb.Bdd
