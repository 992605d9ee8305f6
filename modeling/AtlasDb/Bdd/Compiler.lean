import AtlasDb.Bdd.Authority
import AtlasDb.Bdd.Gherkin
import AtlasDb.Bdd.Template

/-!
# The BDD compiler

`compiler/bdd.py: BddCompiler`. Gates collect blockers for every specification; a specification
without blockers is rendered, and its artifact, manifest and candidate are emitted together. Only
the rendering is guarded against exceptions.
-/

namespace AtlasDb.Bdd

open Core Core.Timestamp Analysis

/-! ## Gates -/

/-- What a gate selects, and the blockers it adds. -/
structure Gate (α : Type) where
  selected : List α
  blockers : List BddBlockerCode

def Gate.join {α : Type} (gates : List (Gate α)) : Gate α :=
  ⟨gates.flatMap Gate.selected, gates.flatMap Gate.blockers⟩

def blockIf (condition : Bool) (code : BddBlockerCode) : List BddBlockerCode :=
  if condition then [code] else []

def approvalsFor (c : ClassificationSnapshot) (observationRef : String) :
    List ClassificationApproval :=
  sortBy ClassificationApproval.approvalId
    (c.approvals.filter fun a => a.classificationObservationRef = observationRef)

/-- One round of `_classification_gate`. -/
def classifyPrecondition (nfc : Nfc) (observations : List ClassificationObservation)
    (c : ClassificationSnapshot) (compileAt : String) (p : ScenarioPrecondition) :
    Except PyError (Gate ClassificationApproval) :=
  match p.classificationObservationRef with
  | none => .ok ⟨[], [.missingClassificationApproval]⟩
  | some observationRef =>
    let candidates := approvalsFor c observationRef
    let active := candidates.filter fun a => timestampActive compileAt a.validFrom a.validTo
    match findBy ClassificationObservation.classificationObservationId observations
        observationRef with
    | none => .ok ⟨[], [.missingClassificationApproval]⟩
    | some observation =>
      if candidates.isEmpty then .ok ⟨[], [.missingClassificationApproval]⟩
      else match active with
        | [] => .ok ⟨[], [.classificationApprovalNotEffective]⟩
        | [approval] => do
            let digest ← digestOf nfc observation.dump
            return ⟨[approval],
              blockIf (approval.authorityScope ≠ c.authorityScope) .authorityScopeMismatch ++
              blockIf (approval.approvedCandidate ≠ observation.candidate)
                .classificationCandidateMismatch ++
              blockIf (approval.classificationObservationDigest ≠ digest)
                .classificationObservationDigestMismatch⟩
        | _ => .ok ⟨[], [.ambiguousClassificationApproval]⟩

/-- `_classification_gate`. -/
def classificationGate (nfc : Nfc) (batch : ScenarioSpecBatchResult) (c : ClassificationSnapshot)
    (compileAt : String) (spec : ScenarioSpec) : Except PyError (Gate ClassificationApproval) := do
  let gates ← spec.preconditions.mapM
    (classifyPrecondition nfc batch.classificationObservations c compileAt)
  let gate := Gate.join gates
  return { gate with selected := sortBy ClassificationApproval.approvalId gate.selected }

/-- `_mapping_matches`. -/
def mappingMatches (m : VocabularyMapping) (r : VocabularyRequirement) : Bool :=
  let pattern : Bool := m.normalizedTechnicalPatternRef = r.normalizedTechnicalPatternRef
  match m.mappingKind with
  | .exactApprovedMapping => pattern
  | .structuralApprovedMapping =>
    pattern && m.structuralContextDigest = some r.structuralContextDigest
  | .symbolBoundApprovedMapping =>
    pattern && sortBy id m.symbolBindingRefs = sortBy id r.symbolBindingRefs
  | .manuallyApprovedMapping => m.manualRequirementRef = some r.requirementId
  | .mappingCandidateOnly => pattern

/-- `_placeholder_bindings_valid`. -/
def placeholderBindingsValid (m : VocabularyMapping) (r : VocabularyRequirement) :
    Except PyError Bool := do
  let read ← parseTemplate m.phraseTemplate.toList
  let templateFields := read.filterMap fun markup =>
    markup.field.map fun field => String.ofList field.name
  let contractFields := m.placeholderContract.map PlaceholderContract.placeholder
  let values := r.placeholderValues.map Prod.fst
  let requiredFields := (m.placeholderContract.filter PlaceholderContract.required).map
    PlaceholderContract.placeholder
  return (templateFields.all contractFields.contains &&
    contractFields.all templateFields.contains) &&
    requiredFields.all values.contains && values.all contractFields.contains

/-- The mappings that match a requirement at the instant of the compilation, candidates left out. -/
def promotableMappings (v : VocabularySnapshot) (compileAt : String) (r : VocabularyRequirement) :
    List VocabularyMapping :=
  ((v.mappings.filter fun m => mappingMatches m r).filter fun m =>
    timestampActive compileAt m.validFrom m.validTo).filter fun m =>
      m.mappingKind ≠ .mappingCandidateOnly

/-- One round of `_mapping_gate`. -/
def mapRequirement (v : VocabularySnapshot) (compileAt : String) (spec : ScenarioSpec)
    (r : VocabularyRequirement) :
    Except PyError (Gate (VocabularyRequirement × VocabularyMapping)) :=
  let semanticCandidates := v.mappings.filter fun m => mappingMatches m r
  let activeCandidates := semanticCandidates.filter fun m =>
    timestampActive compileAt m.validFrom m.validTo
  if semanticCandidates.isEmpty then .ok ⟨[], [.noApprovedBusinessTerm]⟩
  else if activeCandidates.isEmpty then .ok ⟨[], [.mappingNotEffective]⟩
  else match promotableMappings v compileAt r with
    | [] => .ok ⟨[], [.nonPromotableMappingKind]⟩
    | [mapping] => do
        let modality := (findBy ScenarioEffect.effectRef spec.effects r.sourceRef).map
          ScenarioEffect.modality
        let bound ← placeholderBindingsValid mapping r
        return ⟨[(r, mapping)],
          blockIf (mapping.authorityScope ≠ v.authorityScope) .authorityScopeMismatch ++
          blockIf (r.slotKind = .effect &&
            !(modality.any mapping.supportedModalities.contains)) .modalityNotApprovedByMapping ++
          blockIf (!bound) .placeholderBindingInvalid⟩
    | _ => .ok ⟨[], [.ambiguousApprovedBusinessTerm]⟩

/-- `_mapping_gate`. -/
def mappingGate (v : VocabularySnapshot) (compileAt : String) (spec : ScenarioSpec)
    (requirements : List VocabularyRequirement) :
    Except PyError (Gate (VocabularyRequirement × VocabularyMapping)) := do
  let gates ← requirements.mapM (mapRequirement v compileAt spec)
  let gate := Gate.join gates
  return { gate with
    selected := sortBy (fun item => item.1.requirementId) gate.selected }

def resolutionStatuses (r : ResolutionVectorArtifact) : List ResolutionStatus :=
  [r.routineResolution, r.viewResolution, r.udfResolution, r.triggerResolution,
    r.constraintResolution, r.dynamicRelationResolution]

/-- `_resolution_sufficient`. -/
def resolutionSufficient (r : ResolutionVectorArtifact) (scope : AuthorityScope) : Bool :=
  if (resolutionStatuses r).contains .unresolved then false
  else match scope with
    | .platform => (resolutionStatuses r).all
        [ResolutionStatus.resolved, .resolvedSourceOnly, .notApplicable].contains
    | .testFixtureOnly => true

/-- `any(not self._digest_valid(value) for value in nested)`. -/
def nestedInvalid (nfc : Nfc) (batch : ScenarioSpecBatchResult) : Except PyError Bool :=
  if batch.scenarioSpecs.any fun s => !contentValid nfc s.content s.contentDigest then .ok true
  else if batch.effectClosures.any fun c => !contentValid nfc c.content c.contentDigest
    then .ok true
  else if batch.resolutionVectors.any fun r => !contentValid nfc r.content r.contentDigest then
    .ok true
  else batch.budgetReports.anyM fun b => do
    let valid ← digestValid nfc (.record b.content) b.contentDigest
    return !valid

/-- `_batch_blockers`. -/
def batchBlockers (nfc : Nfc) (batch : ScenarioSpecBatchResult) :
    Except PyError (List BddBlockerCode) := do
  let batchValid ← digestValid nfc (.record batch.content) batch.contentDigest
  let nested ← nestedInvalid nfc batch
  return blockIf (!batchValid) .scenarioSpecBatchDigestInvalid ++
    blockIf nested .scenarioNestedArtifactDigestInvalid

/-- `_snapshot_blockers`; the configuration allows fixture authority. -/
def snapshotBlockers (nfc : Nfc) (v : VocabularySnapshot) (c : ClassificationSnapshot) :
    List BddBlockerCode :=
  blockIf (!contentValid nfc v.content v.contentDigest ||
    v.mappings.any fun m => !contentValid nfc m.content m.contentDigest)
      .vocabularySnapshotDigestInvalid ++
  blockIf (!contentValid nfc c.content c.contentDigest ||
    c.approvals.any fun a => !contentValid nfc a.content a.contentDigest)
      .classificationSnapshotDigestInvalid ++
  blockIf (v.authorityScope ≠ c.authorityScope) .authorityScopeMismatch

/-- The digests of the artifacts a specification refers to, checked in turn. -/
def referredValid (nfc : Nfc) (closure : EffectClosureArtifact)
    (resolution : ResolutionVectorArtifact) (budget : ScenarioCompilerBudgetReport) :
    Except PyError Bool :=
  if !contentValid nfc closure.content closure.contentDigest then .ok false
  else if !contentValid nfc resolution.content resolution.contentDigest then .ok false
  else digestValid nfc (.record budget.content) budget.contentDigest

/-- The closure, the resolution vector and the budget report a specification refers to. -/
def nestedBlockers (nfc : Nfc) (batch : ScenarioSpecBatchResult) (scope : AuthorityScope)
    (spec : ScenarioSpec) : Except PyError (List BddBlockerCode) :=
  match findBy EffectClosureArtifact.effectClosureId batch.effectClosures spec.effectClosureRef,
      findBy ResolutionVectorArtifact.resolutionVectorId batch.resolutionVectors
        spec.resolutionVectorRef,
      findBy ScenarioCompilerBudgetReport.budgetReportId batch.budgetReports
        spec.analysisBudgetReportRef with
  | some closure, some resolution, some budget => do
      let valid ← referredValid nfc closure resolution budget
      return blockIf (!valid) .scenarioNestedArtifactDigestInvalid ++
        blockIf (closure.completeness ≠ .closedWithinScope) .effectClosureInsufficient ++
        blockIf (!resolutionSufficient resolution scope) .dependencyResolutionIncomplete
  | _, _, _ => .ok [.scenarioNestedArtifactDigestInvalid]

/-- A modality that an expected effect may have. -/
def definitive : EffectModality → Bool
  | .must | .mustNot | .mustIfCallerContractHolds => true
  | .may | .unknown => false

def effectBlockers (spec : ScenarioSpec) : List BddBlockerCode :=
  blockIf (spec.expectedEffects.any fun effect => !definitive effect.modality)
    .nonDefinitiveEffect ++
  blockIf spec.expectedEffects.isEmpty .gherkinStructureInvalid

/-! ## Rendering -/

inductive ElementKind where
  | feature
  | scenarioName
  | step (keyword : StepKeyword)
deriving DecidableEq

/-- `"FEATURE"`, `"SCENARIO_NAME"` and the keywords in capitals. -/
def ElementKind.value : ElementKind → String
  | .feature => "FEATURE"
  | .scenarioName => "SCENARIO_NAME"
  | .step keyword => String.ofList (Text.upper keyword.text)

/-- An element of the scenario with the phrase it is rendered by. -/
structure RenderedElement where
  kind : ElementKind
  phrase : List Char
  requirement : VocabularyRequirement
  mapping : VocabularyMapping
  elementRefs : List String
  evidenceRefs : List String
  effectOrPreconditionRefs : List String

/-- `_render_phrase`. -/
def renderPhrase (m : VocabularyMapping) : Except PyError (List Char) :=
  match formatTemplate m.phraseTemplate.toList with
  | .ok phrase => .ok phrase
  | .error .indexError => .error .indexError
  | .error _ => .error (.valueError "Placeholder rendering failed.")

/-- The mapping that was selected for a requirement. -/
def mappingOf (mappings : List (VocabularyRequirement × VocabularyMapping))
    (r : VocabularyRequirement) : Except PyError VocabularyMapping :=
  match (dictBy (fun item => item.1.requirementId) mappings).lookup r.requirementId with
  | some (_, mapping) => .ok mapping
  | none => .error (.keyError r.requirementId)

def renderElement (mappings : List (VocabularyRequirement × VocabularyMapping)) (kind : ElementKind)
    (r : VocabularyRequirement) (elementRefs evidenceRefs effectOrPreconditionRefs : List String) :
    Except PyError RenderedElement := do
  let mapping ← mappingOf mappings r
  let phrase ← renderPhrase mapping
  return ⟨kind, phrase, r, mapping, elementRefs, evidenceRefs, effectOrPreconditionRefs⟩

/-- `by_kind[kind]`, of the requirements that are left when equal identifiers are merged. -/
def ofKind (requirements : List VocabularyRequirement) (kind : VocabularySlotKind) :
    List VocabularyRequirement :=
  ((dictBy VocabularyRequirement.requirementId requirements).map Prod.snd).filter fun r =>
    r.slotKind = kind

/-- `_single_requirement`. -/
def singleRequirement (requirements : List VocabularyRequirement) (kind : VocabularySlotKind) :
    Except PyError VocabularyRequirement :=
  match ofKind requirements kind with
  | [r] => .ok r
  | others =>
    .error (.valueError ("Expected exactly one " ++ kind.value ++ " requirement, found " ++
      toString others.length ++ "."))

/-- The requirement of a precondition or of an effect, found by its source. -/
def requirementOf (requirements : List VocabularyRequirement) (kind : VocabularySlotKind)
    (sourceRef : String) : Except PyError VocabularyRequirement :=
  match findBy VocabularyRequirement.sourceRef (ofKind requirements kind) sourceRef with
  | some r => .ok r
  | none => .error (.keyError sourceRef)

/-- `Given` or `Then` for the first of a group of steps, `And` for the others. -/
def keywordAt (first : StepKeyword) (position : Nat) : StepKeyword :=
  if position = 0 then first else .and

def renderPrecondition (requirements : List VocabularyRequirement)
    (mappings : List (VocabularyRequirement × VocabularyMapping)) (p : ScenarioPrecondition)
    (position : Nat) : Except PyError RenderedElement := do
  let r ← requirementOf requirements .precondition p.technicalFactRef
  renderElement mappings (.step (keywordAt .given position)) r [p.preconditionId] p.evidenceRefs
    [p.technicalFactRef]

def renderEffect (requirements : List VocabularyRequirement)
    (mappings : List (VocabularyRequirement × VocabularyMapping)) (e : ScenarioEffect)
    (position : Nat) : Except PyError RenderedElement := do
  let r ← requirementOf requirements .effect e.effectRef
  renderElement mappings (.step (keywordAt .then position)) r [e.effectRef] e.evidenceRefs
    [e.effectRef]

/-- The elements of `_render`, in the order of their lines. -/
def renderElements (spec : ScenarioSpec) (requirements : List VocabularyRequirement)
    (mappings : List (VocabularyRequirement × VocabularyMapping)) :
    Except PyError (List RenderedElement) := do
  let featureRequirement ← singleRequirement requirements .featureTitle
  let scenarioRequirement ← singleRequirement requirements .scenarioName
  let actionRequirement ← singleRequirement requirements .action
  let feature ← renderElement mappings .feature featureRequirement [spec.procedureIdentityRef]
    spec.evidenceRefs []
  let scenario ← renderElement mappings .scenarioName scenarioRequirement [spec.scenarioSpecId]
    spec.evidenceRefs []
  let preconditions ← spec.preconditions.zipIdx.mapM fun (p, position) =>
    renderPrecondition requirements mappings p position
  let action ← renderElement mappings (.step .when) actionRequirement
    [spec.action.invocationContractRef] spec.action.evidenceRefs []
  let effects ← spec.expectedEffects.zipIdx.mapM fun (e, position) =>
    renderEffect requirements mappings e position
  return [feature, scenario] ++ preconditions ++ [action] ++ effects

/-- What stands before the phrase of an element, up to the last blank. -/
def elementStart : ElementKind → List Char
  | .feature => "Feature:".toList
  | .scenarioName => "  Scenario:".toList
  | .step keyword => "    ".toList ++ keyword.text

/-- The line with the phrase of an element, as in `f"Feature: {phrase}"`. -/
def phraseLine (kind : ElementKind) (phrase : List Char) : List Char :=
  elementStart kind ++ ' ' :: phrase

/-- The lines of an element; an empty line follows the title of the feature. -/
def linesOf (kind : ElementKind) (phrase : List Char) : List (List Char) :=
  phraseLine kind phrase :: if kind = .feature then [[]] else []

/-- `"\n".join(lines)`. -/
def joinedLines (elements : List RenderedElement) : List Char :=
  ['\n'].intercalate (elements.flatMap fun e => linesOf e.kind e.phrase)

structure GherkinArtifact where
  artifactId : String
  behaviorId : String
  sourceSymbolId : String
  symbolLineageId : String
  artifactRevisionId : String
  text : List Char
  contentDigest : String

structure GherkinElementBinding where
  elementId : String
  elementKind : ElementKind
  scenarioSpecElementRefs : List String
  authorityRequirementRef : String
  mappingRef : String
  effectOrPreconditionRefs : List String
  evidenceRefs : List String

def GherkinElementBinding.dump (b : GherkinElementBinding) : PyValue :=
  .record
    [("element_id", .str b.elementId), ("element_kind", .str b.elementKind.value),
      ("scenario_spec_element_refs", texts b.scenarioSpecElementRefs),
      ("authority_requirement_ref", .str b.authorityRequirementRef),
      ("mapping_ref", .str b.mappingRef),
      ("effect_or_precondition_refs", texts b.effectOrPreconditionRefs),
      ("evidence_refs", texts b.evidenceRefs)]

structure TraceabilityManifest where
  manifestId : String
  behaviorId : String
  sourceSymbolId : String
  symbolLineageId : String
  artifactRevisionId : String
  scenarioSpecRef : String
  gherkinArtifactRef : String
  elementBindings : List GherkinElementBinding
  inputDigestSet : List String
  contentDigest : String

def TraceabilityManifest.content (m : TraceabilityManifest) : List (String × PyValue) :=
  [("manifest_id", .str m.manifestId), ("behavior_id", .str m.behaviorId),
    ("source_symbol_id", .str m.sourceSymbolId), ("symbol_lineage_id", .str m.symbolLineageId),
    ("artifact_revision_id", .str m.artifactRevisionId),
    ("scenario_spec_ref", .str m.scenarioSpecRef),
    ("gherkin_artifact_ref", .str m.gherkinArtifactRef),
    ("element_bindings", .list (m.elementBindings.map GherkinElementBinding.dump)),
    ("input_digest_set", texts m.inputDigestSet)]

/-- `_binding`, of the element at a position. -/
def elementBinding (spec : ScenarioSpec) (e : RenderedElement) (index : Nat) :
    GherkinElementBinding where
  elementId := stableId "gherkin-element"
    [spec.scenarioSpecId, toString index, e.requirement.requirementId, e.mapping.mappingId]
  elementKind := e.kind
  scenarioSpecElementRefs := e.elementRefs
  authorityRequirementRef := e.requirement.requirementId
  mappingRef := e.mapping.mappingId
  effectOrPreconditionRefs := e.effectOrPreconditionRefs
  evidenceRefs := sortBy id e.evidenceRefs

/-- `_render`. -/
def render (nfc : Nfc) (spec : ScenarioSpec) (v : VocabularySnapshot) (c : ClassificationSnapshot)
    (requirements : List VocabularyRequirement)
    (mappings : List (VocabularyRequirement × VocabularyMapping))
    (approvals : List ClassificationApproval) :
    Except PyError (GherkinArtifact × TraceabilityManifest) := do
  let elements ← renderElements spec requirements mappings
  let text ← canonicalGherkinText nfc (joinedLines elements)
  let digest ← gherkinDigest nfc text
  let artifact : GherkinArtifact :=
    ⟨stableId "gherkin-artifact" [spec.scenarioSpecId, digest], spec.behaviorId,
      spec.sourceSymbolId, spec.symbolLineageId, spec.artifactRevisionId, text, digest⟩
  let inputDigests := sortBy id ([spec.contentDigest, v.contentDigest, c.contentDigest] ++
    (dictBy (fun item => item.1.requirementId) mappings).map (fun entry =>
      entry.2.2.contentDigest) ++
    approvals.map ClassificationApproval.contentDigest).dedup
  let manifest : TraceabilityManifest :=
    ⟨stableId "traceability-manifest" [spec.scenarioSpecId, digest], spec.behaviorId,
      spec.sourceSymbolId, spec.symbolLineageId, spec.artifactRevisionId, spec.scenarioSpecId,
      artifact.artifactId, elements.zipIdx.map (fun (e, index) => elementBinding spec e index),
      inputDigests, ""⟩
  return (artifact, { manifest with contentDigest := digestText nfc (.record manifest.content) })

/-! ## Results -/

inductive BddCompilationStatus where
  | succeeded
  | blocked
  | failed
deriving DecidableEq

structure BddCompilationResult where
  compilationStatus : BddCompilationStatus
  scenarioSpecRef : String
  candidateBddRef : Option String
  blockers : List BddBlockerCode
  mappingRefs : List String
  classificationApprovalRefs : List String
  findingRefs : List String
  inputScenarioSpecDigest : String
  authorityRequirementsDigest : String
  vocabularySnapshotDigest : String
  classificationSnapshotDigest : String
  compilerConfigurationDigest : String
  effectiveTimestamp : String
  outputDigest : Option String

structure CandidateBdd where
  candidateBddId : String
  behaviorId : String
  sourceSymbolId : String
  symbolLineageId : String
  artifactRevisionId : String
  scenarioSpecRef : String
  gherkinArtifactRef : String
  traceabilityManifestRef : String
  authorityRequirementsDigest : String
  vocabularySnapshotDigest : String
  classificationSnapshotDigest : String
  authorityScope : AuthorityScope
  contentDigest : String

def CandidateBdd.content (b : CandidateBdd) : List (String × PyValue) :=
  [("candidate_bdd_id", .str b.candidateBddId), ("schema_version", .str "candidate-bdd-1.2"),
    ("behavior_id", .str b.behaviorId), ("source_symbol_id", .str b.sourceSymbolId),
    ("symbol_lineage_id", .str b.symbolLineageId),
    ("artifact_revision_id", .str b.artifactRevisionId),
    ("scenario_spec_ref", .str b.scenarioSpecRef),
    ("gherkin_artifact_ref", .str b.gherkinArtifactRef),
    ("traceability_manifest_ref", .str b.traceabilityManifestRef),
    ("authority_requirements_digest", .str b.authorityRequirementsDigest),
    ("vocabulary_snapshot_digest", .str b.vocabularySnapshotDigest),
    ("classification_snapshot_digest", .str b.classificationSnapshotDigest),
    ("compiler_version", .str "bdd-compiler-1.4"),
    ("authority_scope", .enum (.str b.authorityScope.value)), ("platform_governance_ref", .none)]

/-- `canonical_digest(self.CONFIGURATION)`. -/
def configurationDigest (nfc : Nfc) : String :=
  digestText nfc (.record
    [("dialect", .str "en"), ("allow_test_fixture_authority", .bool true),
      ("platform_requires_full_dependency_resolution", .bool true),
      ("unicode_normalization", .str "NFC"), ("newline", .str "LF")])

/-- What a call of `compile_all` computes before it reads the specifications. -/
structure Compilation where
  batch : ScenarioSpecBatchResult
  vocabulary : VocabularySnapshot
  classification : ClassificationSnapshot
  requirements : AuthorityRequirementsManifest
  blockers : List BddBlockerCode
  compileAt : String

/-- `requirement_by_spec[spec.scenario_spec_id]`. -/
def Compilation.requirementsOf (k : Compilation) (spec : ScenarioSpec) :
    List VocabularyRequirement :=
  sortBy VocabularyRequirement.requirementId
    (k.requirements.vocabularyRequirements.filter fun r =>
      r.scenarioSpecRef = spec.scenarioSpecId)

/-- The two gates of a specification and all its blockers. -/
structure Gates where
  mappings : List (VocabularyRequirement × VocabularyMapping)
  approvals : List ClassificationApproval
  blockers : List BddBlockerCode

/-- `_result`. -/
def compilationResult (nfc : Nfc) (k : Compilation) (spec : ScenarioSpec) (gates : Gates)
    (status : BddCompilationStatus) (blockers : List BddBlockerCode)
    (candidateRef outputDigest : Option String) : BddCompilationResult where
  compilationStatus := status
  scenarioSpecRef := spec.scenarioSpecId
  candidateBddRef := candidateRef
  blockers := sortBy BddBlockerCode.value blockers.dedup
  mappingRefs := sortBy id (gates.mappings.map fun item => item.2.mappingId)
  classificationApprovalRefs := sortBy id (gates.approvals.map ClassificationApproval.approvalId)
  findingRefs := spec.findingRefs
  inputScenarioSpecDigest := spec.contentDigest
  authorityRequirementsDigest := k.requirements.contentDigest
  vocabularySnapshotDigest := k.vocabulary.contentDigest
  classificationSnapshotDigest := k.classification.contentDigest
  compilerConfigurationDigest := configurationDigest nfc
  effectiveTimestamp := k.compileAt
  outputDigest := outputDigest

/-- The gates of one specification. -/
def specGates (nfc : Nfc) (k : Compilation) (spec : ScenarioSpec) : Except PyError Gates := do
  let nested ← nestedBlockers nfc k.batch k.vocabulary.authorityScope spec
  let classification ← classificationGate nfc k.batch k.classification k.compileAt spec
  let mapping ← mappingGate k.vocabulary k.compileAt spec (k.requirementsOf spec)
  return ⟨mapping.selected, classification.selected,
    k.blockers ++
    blockIf (!contentValid nfc spec.content spec.contentDigest) .scenarioSpecDigestInvalid ++
    nested ++ classification.blockers ++ mapping.blockers ++ effectBlockers spec⟩

/-- What is emitted for a specification that succeeds. -/
structure Emission where
  artifact : GherkinArtifact
  manifest : TraceabilityManifest
  candidate : CandidateBdd

/-- The guarded block of `compile_all`. -/
def emit (nfc : Nfc) (k : Compilation) (spec : ScenarioSpec) (gates : Gates) :
    Except PyError Emission := do
  let (artifact, manifest) ← render nfc spec k.vocabulary k.classification (k.requirementsOf spec)
    gates.mappings gates.approvals
  let textDigest ← gherkinDigest nfc artifact.text
  if !contentValid nfc manifest.content manifest.contentDigest ||
      textDigest != artifact.contentDigest then
    .error (.valueError "Generated artifact or traceability digest did not validate.")
  else if manifest.elementBindings.length ≠
      3 + spec.preconditions.length + spec.expectedEffects.length then
    .error (.valueError "Traceability manifest does not cover every rendered element.")
  else
    let candidate : CandidateBdd :=
      ⟨stableId "candidate-bdd" [spec.contentDigest, k.requirements.contentDigest,
          k.vocabulary.contentDigest, k.classification.contentDigest, artifact.contentDigest,
          manifest.contentDigest, configurationDigest nfc],
        spec.behaviorId, spec.sourceSymbolId, spec.symbolLineageId, spec.artifactRevisionId,
        spec.scenarioSpecId, artifact.artifactId, manifest.manifestId, k.requirements.contentDigest,
        k.vocabulary.contentDigest, k.classification.contentDigest, k.vocabulary.authorityScope, ""⟩
    let candidate :=
      { candidate with contentDigest := digestText nfc (.record candidate.content) }
    if !contentValid nfc candidate.content candidate.contentDigest then
      .error (.valueError "CandidateBDD digest did not validate.")
    else .ok ⟨artifact, manifest, candidate⟩

/-- `"traceability" in str(exc).lower()`. -/
def mentionsTraceability (text : String) : Bool :=
  Text.containsList "traceability".toList (text.toList.map Char.toLower)

/-- The blocker of a failed specification. -/
def failureBlocker : PyError → BddBlockerCode
  | .keyError key =>
    if mentionsTraceability key then .traceabilityManifestFailed else .compilationInternalError
  | .valueError text =>
    if mentionsTraceability text then .traceabilityManifestFailed else .compilationInternalError
  | .indexError | .canonicalJson _ => .compilationInternalError

/-- The round of `compile_all` for one specification. -/
def compileSpec (nfc : Nfc) (k : Compilation) (spec : ScenarioSpec) :
    Except PyError (BddCompilationResult × Option Emission) := do
  let gates ← specGates nfc k spec
  if gates.blockers ≠ [] then
    return (compilationResult nfc k spec gates .blocked gates.blockers none none, none)
  else match emit nfc k spec gates with
    | .ok emission =>
      return (compilationResult nfc k spec gates .succeeded []
        (some emission.candidate.candidateBddId) (some emission.candidate.contentDigest),
        some emission)
    -- `except (KeyError, ValueError)`
    | .error .indexError => .error .indexError
    | .error error =>
      return (compilationResult nfc k spec gates .failed [failureBlocker error] none none, none)

structure BddCompilationBatch where
  gherkinArtifacts : List GherkinArtifact
  traceabilityManifests : List TraceabilityManifest
  candidateBdds : List CandidateBdd
  compilationResults : List BddCompilationResult

/-- `effective_timestamp or max(…)`, in canonical form. -/
def compileInstant (v : VocabularySnapshot) (c : ClassificationSnapshot)
    (effectiveTimestamp : Option String) : Except PyError String :=
  let later := if v.effectiveTimestamp < c.effectiveTimestamp then c.effectiveTimestamp
    else v.effectiveTimestamp
  let given := effectiveTimestamp.getD ""
  match canonicalTimestamp (if given = "" then later else given) with
  | some compileAt => .ok compileAt
  | none => .error (.valueError "Canonical timestamp must include a timezone.")

/-- What `compile_all` computes before its loop. -/
def compilation (nfc : Nfc) (batch : ScenarioSpecBatchResult) (v : VocabularySnapshot)
    (c : ClassificationSnapshot) (effectiveTimestamp : Option String) :
    Except PyError Compilation := do
  let requirements ← exportRequirements nfc batch
  let blockers ← batchBlockers nfc batch
  let compileAt ← compileInstant v c effectiveTimestamp
  return ⟨batch, v, c, requirements, blockers ++ snapshotBlockers nfc v c, compileAt⟩

/-- `compile_all`. -/
def compileAll (nfc : Nfc) (batch : ScenarioSpecBatchResult) (v : VocabularySnapshot)
    (c : ClassificationSnapshot) (effectiveTimestamp : Option String) :
    Except PyError BddCompilationBatch := do
  let k ← compilation nfc batch v c effectiveTimestamp
  let rounds ← (sortBy ScenarioSpec.scenarioSpecId batch.scenarioSpecs).mapM (compileSpec nfc k)
  let emissions := rounds.filterMap Prod.snd
  return ⟨sortBy GherkinArtifact.artifactId (emissions.map Emission.artifact),
    sortBy TraceabilityManifest.manifestId (emissions.map Emission.manifest),
    sortBy CandidateBdd.candidateBddId (emissions.map Emission.candidate),
    sortBy BddCompilationResult.scenarioSpecRef (rounds.map Prod.fst)⟩

end AtlasDb.Bdd
