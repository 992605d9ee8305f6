import AtlasDb.Bdd.Compiler
import AtlasDb.Bdd.Requirements

/-!
# What the gates report

The parts of a run of `compile_all` that returns: the requirements each specification is given, the
blockers of its gates, and the result of its round.
-/

namespace AtlasDb.Bdd

open Core Analysis Lib

variable {nfc : Nfc} {batch : ScenarioSpecBatchResult} {v : VocabularySnapshot}
  {c : ClassificationSnapshot} {effectiveTimestamp : Option String} {k : Compilation}
  {spec : ScenarioSpec} {compileAt : String}

@[simp] theorem mem_blockIf {condition : Bool} {code code' : BddBlockerCode} :
    code ∈ blockIf condition code' ↔ condition = true ∧ code = code' := by
  rw [blockIf]
  split
  · next h => simp [h]
  · next h => simp [h]

/-! ## Before the loop -/

/-- What `compile_all` has computed when its loop begins. -/
structure Prepared (nfc : Nfc) (batch : ScenarioSpecBatchResult) (v : VocabularySnapshot)
    (c : ClassificationSnapshot) (effectiveTimestamp : Option String) (k : Compilation) : Prop where
  batch_eq : k.batch = batch
  vocabulary : k.vocabulary = v
  classification : k.classification = c
  exported : exportRequirements nfc batch = .ok k.requirements
  blocked : ∃ found, batchBlockers nfc batch = .ok found ∧
    k.blockers = found ++ snapshotBlockers nfc v c
  instant : compileInstant v c effectiveTimestamp = .ok k.compileAt

theorem prepared_of_compilation (h : compilation nfc batch v c effectiveTimestamp = .ok k) :
    Prepared nfc batch v c effectiveTimestamp k := by
  rw [compilation] at h
  obtain ⟨requirements, hexport, h⟩ := bind_eq_ok.1 h
  obtain ⟨found, hfound, h⟩ := bind_eq_ok.1 h
  obtain ⟨instant, hinstant, h⟩ := bind_eq_ok.1 h
  cases h
  exact ⟨rfl, rfl, rfl, hexport, ⟨found, hfound, rfl⟩, hinstant⟩

theorem scenarioSpecRef_of_mem {rs : List VocabularyRequirement} {r : VocabularyRequirement}
    (h : vocabularyRequirements nfc spec = .ok rs) (hr : r ∈ rs) :
    r.scenarioSpecRef = spec.scenarioSpecId := by
  rw [vocabularyRequirements] at h
  obtain ⟨slots, -, h⟩ := bind_eq_ok.1 h
  cases h
  obtain ⟨d, -, rfl⟩ := List.mem_map.1 hr
  rfl

theorem mem_exported {manifest : AuthorityRequirementsManifest} {r : VocabularyRequirement}
    (h : exportRequirements nfc batch = .ok manifest) :
    r ∈ manifest.vocabularyRequirements ↔
      ∃ s ∈ batch.scenarioSpecs, ∃ rs, vocabularyRequirements nfc s = .ok rs ∧ r ∈ rs := by
  rw [exportRequirements] at h
  obtain ⟨vocabulary, hvocabulary, h⟩ := bind_eq_ok.1 h
  obtain ⟨classification, -, h⟩ := bind_eq_ok.1 h
  cases h
  rw [mem_sortBy, List.mem_flatten]
  constructor
  · rintro ⟨rs, hrs, hr⟩
    obtain ⟨s, hs, hrun⟩ := exists_source hvocabulary hrs
    exact ⟨s, mem_sortBy.1 hs, rs, hrun, hr⟩
  · rintro ⟨s, hs, rs, hrun, hr⟩
    obtain ⟨rs', hmem, hrun'⟩ := exists_of_mapM hvocabulary (mem_sortBy.2 hs)
    rw [hrun] at hrun'
    cases hrun'
    exact ⟨rs, hmem, hr⟩

theorem mem_requirementsOf {r : VocabularyRequirement}
    (h : Prepared nfc batch v c effectiveTimestamp k) :
    r ∈ k.requirementsOf spec ↔ ∃ s ∈ batch.scenarioSpecs, s.scenarioSpecId = spec.scenarioSpecId ∧
      ∃ rs, vocabularyRequirements nfc s = .ok rs ∧ r ∈ rs := by
  rw [Compilation.requirementsOf, mem_sortBy, List.mem_filter, mem_exported h.exported,
    decide_eq_true_iff]
  constructor
  · rintro ⟨⟨s, hs, rs, hrun, hr⟩, href⟩
    exact ⟨s, hs, (scenarioSpecRef_of_mem hrun hr).symm.trans href, rs, hrun, hr⟩
  · rintro ⟨s, hs, hid, rs, hrun, hr⟩
    exact ⟨⟨s, hs, rs, hrun, hr⟩, (scenarioSpecRef_of_mem hrun hr).trans hid⟩

/-! ## The gates of a specification -/

/-- The blockers of a specification, gate by gate. -/
structure Blocked (nfc : Nfc) (k : Compilation) (spec : ScenarioSpec) (gates : Gates)
    (nested : List BddBlockerCode) (approvals : List (Gate ClassificationApproval))
    (mappings : List (Gate (VocabularyRequirement × VocabularyMapping))) : Prop where
  nested_eq : nestedBlockers nfc k.batch k.vocabulary.authorityScope spec = .ok nested
  approvals_eq : spec.preconditions.mapM
    (classifyPrecondition nfc k.batch.classificationObservations k.classification k.compileAt)
      = .ok approvals
  mappings_eq : (k.requirementsOf spec).mapM (mapRequirement k.vocabulary k.compileAt spec)
    = .ok mappings
  gates_eq : gates = ⟨sortBy (fun item => item.1.requirementId) (mappings.flatMap Gate.selected),
    sortBy ClassificationApproval.approvalId (approvals.flatMap Gate.selected),
    k.blockers ++
      blockIf (!contentValid nfc spec.content spec.contentDigest) .scenarioSpecDigestInvalid ++
      nested ++ approvals.flatMap Gate.blockers ++ mappings.flatMap Gate.blockers ++
      effectBlockers spec⟩

theorem specGates_eq_ok {gates : Gates} : specGates nfc k spec = .ok gates ↔
    ∃ nested approvals mappings, Blocked nfc k spec gates nested approvals mappings := by
  rw [specGates]
  constructor
  · intro h
    obtain ⟨nested, hnested, h⟩ := bind_eq_ok.1 h
    obtain ⟨classification, hclassification, h⟩ := bind_eq_ok.1 h
    obtain ⟨mapping, hmapping, h⟩ := bind_eq_ok.1 h
    rw [classificationGate] at hclassification
    obtain ⟨approvals, happrovals, hclassification⟩ := bind_eq_ok.1 hclassification
    rw [mappingGate] at hmapping
    obtain ⟨mappings, hmappings, hmapping⟩ := bind_eq_ok.1 hmapping
    cases hclassification
    cases hmapping
    cases h
    exact ⟨nested, approvals, mappings, hnested, happrovals, hmappings, rfl⟩
  · rintro ⟨nested, approvals, mappings, hnested, happrovals, hmappings, rfl⟩
    rw [hnested, classificationGate, happrovals, mappingGate, hmappings]
    rfl

theorem compileSpec_eq {gates : Gates} (h : specGates nfc k spec = .ok gates) :
    compileSpec nfc k spec =
      if gates.blockers ≠ [] then
        .ok (compilationResult nfc k spec gates .blocked gates.blockers none none, none)
      else match emit nfc k spec gates with
        | .ok emission =>
          .ok (compilationResult nfc k spec gates .succeeded []
            (some emission.candidate.candidateBddId) (some emission.candidate.contentDigest),
            some emission)
        | .error .indexError => .error .indexError
        | .error error =>
          .ok (compilationResult nfc k spec gates .failed [failureBlocker error] none none,
            none) := by
  rw [compileSpec, h]
  rfl

theorem mem_blockers_compilationResult {gates : Gates} {status : BddCompilationStatus}
    {blockers : List BddBlockerCode} {candidateRef outputDigest : Option String}
    {code : BddBlockerCode} :
    code ∈ (compilationResult nfc k spec gates status blockers candidateRef outputDigest).blockers ↔
      code ∈ blockers := by
  rw [compilationResult, mem_sortBy, List.mem_dedup]

theorem blockers_of_compileSpec {result : BddCompilationResult} {emission : Option Emission}
    (h : compileSpec nfc k spec = .ok (result, emission)) :
    ∃ gates, specGates nfc k spec = .ok gates ∧
      (∀ code, code ∈ gates.blockers → code ∈ result.blockers) ∧
      ∀ code ∈ result.blockers, code ∈ gates.blockers ∨ ∃ error, code = failureBlocker error := by
  cases hgates : specGates nfc k spec with
  | error e =>
    rw [compileSpec, hgates] at h
    cases h
  | ok gates =>
    refine ⟨gates, rfl, ?_⟩
    rw [compileSpec_eq hgates] at h
    split at h
    · cases h
      exact ⟨fun code hcode => mem_blockers_compilationResult.2 hcode,
        fun code hcode => .inl (mem_blockers_compilationResult.1 hcode)⟩
    · next hempty =>
        have hnil : gates.blockers = [] := not_not.1 hempty
        rw [hnil]
        split at h
        · cases h
          exact ⟨fun code hcode => absurd hcode List.not_mem_nil,
            fun code hcode => .inl (mem_blockers_compilationResult.1 hcode)⟩
        · cases h
        · next error _ _ =>
            cases h
            refine ⟨fun code hcode => absurd hcode List.not_mem_nil, fun code hcode => ?_⟩
            have hone := mem_blockers_compilationResult.1 hcode
            exact .inr ⟨error, List.mem_singleton.1 hone⟩

/-! ## A whole run -/

theorem rounds_of_compileAll {out : BddCompilationBatch}
    (h : compileAll nfc batch v c effectiveTimestamp = .ok out) :
    ∃ k rounds, Prepared nfc batch v c effectiveTimestamp k ∧
      (sortBy ScenarioSpec.scenarioSpecId batch.scenarioSpecs).mapM (compileSpec nfc k)
        = .ok rounds ∧
      out = ⟨sortBy GherkinArtifact.artifactId ((rounds.filterMap Prod.snd).map Emission.artifact),
        sortBy TraceabilityManifest.manifestId ((rounds.filterMap Prod.snd).map Emission.manifest),
        sortBy CandidateBdd.candidateBddId ((rounds.filterMap Prod.snd).map Emission.candidate),
        sortBy BddCompilationResult.scenarioSpecRef (rounds.map Prod.fst)⟩ := by
  rw [compileAll] at h
  obtain ⟨k, hk, h⟩ := bind_eq_ok.1 h
  obtain ⟨rounds, hrounds, h⟩ := bind_eq_ok.1 h
  cases h
  exact ⟨k, rounds, prepared_of_compilation hk, hrounds, rfl⟩

end AtlasDb.Bdd
