import AtlasDb.Bdd.Models
import Mathlib.Data.List.Infix

/-!
# Authority requirements and snapshots

`bdd/authority.py`. The exporter lists the vocabulary a specification needs: its three titles and
one requirement for every slot it names. The validator checks a pair of snapshots before a
compilation.
-/

namespace AtlasDb.Bdd

open Core Analysis

/-! ## Digests of texts -/

/-- `canonical_digest` of a value that has a canonical form. -/
def digestText (nfc : Nfc) (value : PyValue) : String :=
  match canonicalDigest nfc value with
  | .ok digest => digest
  | .error _ => ""

theorem canonicalDigest_eq {nfc : Nfc} {value : PyValue} (h : Projects nfc value) :
    canonicalDigest nfc value = .ok (digestText nfc value) := by
  obtain ⟨digest, hdigest⟩ := h.canonicalDigest
  rw [digestText, hdigest]

/-- `_digest_valid` of a model whose content is a record with a canonical form. -/
def contentValid (nfc : Nfc) (content : List (String × PyValue)) (contentDigest : String) : Bool :=
  digestText nfc (.record content) == contentDigest

theorem digestValid_eq {nfc : Nfc} {content : List (String × PyValue)} {contentDigest : String}
    (h : Projects nfc (.record content)) :
    digestValid nfc (.record content) contentDigest
      = .ok (contentValid nfc content contentDigest) := by
  rw [digestValid, digestOf, canonicalDigest_eq h]
  rfl

theorem contentValid_digestText (nfc : Nfc) (content : List (String × PyValue)) :
    contentValid nfc content (digestText nfc (.record content)) = true :=
  beq_self_eq_true _

/-! ## Requirements of a specification -/

/-- `slot.rsplit(":", 1)[-1]`. -/
def lastPart (slot : String) : String :=
  String.ofList (slot.toList.reverse.takeWhile (· ≠ ':')).reverse

/-- What `_vocabulary_requirements` collects for one slot. -/
structure SlotDefinition where
  slot : String
  kind : VocabularySlotKind
  sourceRef : String
  modality : Option EffectModality
  evidenceRefs : List String

/-- Expected and alternative effects; `{item.effect_ref: item …}` keeps the last of a reference. -/
def ScenarioSpec.effects (spec : ScenarioSpec) : List ScenarioEffect :=
  spec.expectedEffects ++ spec.alternativeOrConditionalEffects

def findBy {α : Type} (key : α → String) (values : List α) (wanted : String) : Option α :=
  values.reverse.find? fun value => key value = wanted

/-- The definition a named slot stands for; a slot that names neither kind has none. -/
def slotDefinition (spec : ScenarioSpec) (slot : String) :
    Except PyError (Option SlotDefinition) :=
  if Text.containsList ":PRECONDITION:".toList slot.toList then
    match findBy ScenarioPrecondition.preconditionId spec.preconditions (lastPart slot) with
    | none => .error (.keyError (lastPart slot))
    | some p => .ok (some ⟨slot, .precondition, p.technicalFactRef, none, p.evidenceRefs⟩)
  else if Text.containsList ":EFFECT:".toList slot.toList then
    match findBy ScenarioEffect.effectRef spec.effects (lastPart slot) with
    | none => .error (.keyError (lastPart slot))
    | some e => .ok (some ⟨slot, .effect, e.effectRef, some e.modality, spec.evidenceRefs⟩)
  else .ok none

/-- `action_scope_ref or procedure_identity_ref`, after the kind of the action. -/
def actionSource (action : ScenarioAction) : String :=
  let scope := action.actionScopeRef.getD ""
  action.actionKind.value ++ ":" ++ (if scope = "" then action.procedureIdentityRef else scope)

def titleDefinitions (spec : ScenarioSpec) : List SlotDefinition :=
  [⟨spec.scenarioSpecId ++ ":FEATURE_TITLE", .featureTitle, spec.procedureIdentityRef, none,
      spec.evidenceRefs⟩,
    ⟨spec.scenarioSpecId ++ ":SCENARIO_NAME", .scenarioName, spec.scenarioSpecId, none,
      spec.evidenceRefs⟩,
    ⟨spec.scenarioSpecId ++ ":ACTION", .action, actionSource spec.action, none,
      spec.action.evidenceRefs⟩]

def requirementId (specId : String) (kind : VocabularySlotKind) (sourceRef : String) : String :=
  stableId "vocabulary-requirement" [specId, kind.value, sourceRef]

def vocabularyRequirement (nfc : Nfc) (spec : ScenarioSpec) (d : SlotDefinition) :
    VocabularyRequirement where
  requirementId := requirementId spec.scenarioSpecId d.kind d.sourceRef
  scenarioSpecRef := spec.scenarioSpecId
  slotId := d.slot
  slotKind := d.kind
  sourceRef := d.sourceRef
  normalizedTechnicalPatternRef := stableId "technical-pattern" [d.kind.value, d.sourceRef]
  structuralContextDigest := digestText nfc (.record
    [("slot_kind", .str d.kind.value), ("source_ref", .str d.sourceRef),
      ("modality", optionalText (d.modality.map modalityValue))])
  symbolBindingRefs := [d.sourceRef]
  requiredModality := d.modality
  evidenceRefs := sortBy id d.evidenceRefs

/-- `_vocabulary_requirements`. -/
def vocabularyRequirements (nfc : Nfc) (spec : ScenarioSpec) :
    Except PyError (List VocabularyRequirement) := do
  let slots ← spec.requiredVocabularySlots.mapM (slotDefinition spec)
  return (titleDefinitions spec ++ slots.filterMap id).map (vocabularyRequirement nfc spec)

/-! ## The manifest -/

structure ClassificationRequirement where
  requirementId : String
  scenarioSpecRefs : List String
  observation : ClassificationObservation
  observationDigest : String

def ClassificationRequirement.dump (r : ClassificationRequirement) : PyValue :=
  .record
    [("requirement_id", .str r.requirementId), ("scenario_spec_refs", texts r.scenarioSpecRefs),
      ("classification_observation_ref", .str r.observation.classificationObservationId),
      ("classification_observation_digest", .str r.observationDigest),
      ("candidate", .str r.observation.candidate), ("method", .str r.observation.method),
      ("method_version", .str r.observation.methodVersion),
      ("classification_evidence_refs", texts r.observation.classificationEvidenceRefs)]

def VocabularyRequirement.dump (r : VocabularyRequirement) : PyValue :=
  .record
    [("requirement_id", .str r.requirementId), ("scenario_spec_ref", .str r.scenarioSpecRef),
      ("slot_id", .str r.slotId), ("slot_kind", .enum (.str r.slotKind.value)),
      ("source_ref", .str r.sourceRef),
      ("normalized_technical_pattern_ref", .str r.normalizedTechnicalPatternRef),
      ("structural_context_digest", .str r.structuralContextDigest),
      ("symbol_binding_refs", texts r.symbolBindingRefs), ("placeholder_values", .list []),
      ("required_modality", optionalText (r.requiredModality.map modalityValue)),
      ("evidence_refs", texts r.evidenceRefs)]

structure AuthorityRequirementsManifest where
  manifestId : String
  vocabularyRequirements : List VocabularyRequirement
  classificationRequirements : List ClassificationRequirement
  contentDigest : String

/-- The specifications whose preconditions refer to an observation, sorted. -/
def usersOf (specs : List ScenarioSpec) (observationRef : String) : List String :=
  sortBy id ((specs.filter fun spec => spec.preconditions.any fun p =>
    p.classificationObservationRef = some observationRef).map ScenarioSpec.scenarioSpecId).dedup

/-- The observations the preconditions of the batch refer to. -/
def usedObservations (batch : ScenarioSpecBatchResult) : List ClassificationObservation :=
  ((batch.scenarioSpecs.flatMap fun spec => spec.preconditions.filterMap fun p =>
    p.classificationObservationRef).dedup).filterMap
      (findBy ClassificationObservation.classificationObservationId
        batch.classificationObservations)

def classificationRequirement (nfc : Nfc) (specs : List ScenarioSpec)
    (observation : ClassificationObservation) : Except PyError ClassificationRequirement := do
  let digest ← digestOf nfc observation.dump
  return ⟨stableId "classification-requirement" [observation.classificationObservationId],
    usersOf specs observation.classificationObservationId, observation, digest⟩

/-- `AuthorityRequirementsExporter.export`. -/
def exportRequirements (nfc : Nfc) (batch : ScenarioSpecBatchResult) :
    Except PyError AuthorityRequirementsManifest := do
  let vocabulary ← (sortBy ScenarioSpec.scenarioSpecId batch.scenarioSpecs).mapM
    (vocabularyRequirements nfc)
  let classification ← (sortBy ClassificationObservation.classificationObservationId
    (usedObservations batch)).mapM (classificationRequirement nfc batch.scenarioSpecs)
  let vocabulary := sortBy VocabularyRequirement.requirementId vocabulary.flatten
  let classification := sortBy ClassificationRequirement.requirementId classification
  let manifestId := stableId "authority-requirements"
    [batch.contentDigest, "authority-requirements-exporter-1.1"]
  return ⟨manifestId, vocabulary, classification, digestText nfc (.record
    [("schema_version", .str "authority-requirements-1.1"), ("manifest_id", .str manifestId),
      ("scenario_spec_batch_digest", .str batch.contentDigest),
      ("procedure_identity_ref", .str batch.procedureIdentityRef),
      ("required_authority_scope", .str "PLATFORM"),
      ("vocabulary_requirements", .list (vocabulary.map VocabularyRequirement.dump)),
      ("classification_requirements",
        .list (classification.map ClassificationRequirement.dump))])⟩

/-! ## Validating a pair of snapshots -/

inductive AuthorityValidationIssueCode where
  | vocabularySnapshotDigestInvalid
  | classificationSnapshotDigestInvalid
  | mappingDigestInvalid
  | classificationApprovalDigestInvalid
  | authorityScopeMismatch
  | duplicateMappingId
  | duplicateApprovalId
  | duplicateActiveMappingBinding
  | duplicateClassificationApproval
  | nonPromotablePlatformMapping
  | mappingNotEffectiveAtSnapshot
  | approvalNotEffectiveAtSnapshot
  | emptyApprovalReference
  | emptyMappingEvidence
  | emptyClassificationEvidence
deriving DecidableEq

structure AuthorityValidationIssue where
  code : AuthorityValidationIssueCode
  artifactRef : String
  message : String
deriving DecidableEq

/-- `Counter(key(item) for item in values)`, in order of first occurrence. -/
def countBy {α : Type} (key : α → String) (values : List α) : List (String × Nat) :=
  (values.map key).reverse.dedup.reverse.map fun k => (k, (values.map key).count k)

/-- The issue raised by each key that is counted more than once. -/
def duplicates {α : Type} (key : α → String) (values : List α)
    (issue : String → Nat → AuthorityValidationIssue) : List AuthorityValidationIssue :=
  (countBy key values).flatMap fun (k, count) => if 1 < count then [issue k count] else []

/-- `_mapping_binding_key`. -/
def bindingContent (m : VocabularyMapping) : PyValue :=
  .record
    [("kind", .str m.mappingKind.value), ("pattern", .str m.normalizedTechnicalPatternRef),
      ("structural", optionalText m.structuralContextDigest),
      ("symbols", texts m.symbolBindingRefs),
      ("manual", optionalText m.manualRequirementRef)]

def mappingBindingKey (nfc : Nfc) (m : VocabularyMapping) : String :=
  digestText nfc (bindingContent m)

def mappingIssues (nfc : Nfc) (s : VocabularySnapshot) (m : VocabularyMapping) :
    List AuthorityValidationIssue :=
  (if m.authorityScope ≠ s.authorityScope then [⟨.authorityScopeMismatch, m.mappingId,
    "Vocabulary mapping authority scope differs from its snapshot."⟩] else []) ++
  (if contentValid nfc m.content m.contentDigest then [] else [⟨.mappingDigestInvalid, m.mappingId,
    "Vocabulary mapping digest does not match canonical content."⟩]) ++
  (if Text.strip m.approvalRef.toList = [] then [⟨.emptyApprovalReference, m.mappingId,
    "Vocabulary mapping has no approval reference."⟩] else []) ++
  (if m.evidenceRefs = [] then [⟨.emptyMappingEvidence, m.mappingId,
    "Vocabulary mapping has no evidence reference."⟩] else []) ++
  (if s.authorityScope = .platform ∧ m.mappingKind = .mappingCandidateOnly then
    [⟨.nonPromotablePlatformMapping, m.mappingId,
      "A PLATFORM snapshot cannot contain candidate-only mappings."⟩] else []) ++
  (if timestampActive s.effectiveTimestamp m.validFrom m.validTo then [] else
    [⟨.mappingNotEffectiveAtSnapshot, m.mappingId,
      "Vocabulary mapping is not effective at the snapshot timestamp."⟩])

/-- `_validate_vocabulary`. -/
def vocabularyIssues (nfc : Nfc) (s : VocabularySnapshot) : List AuthorityValidationIssue :=
  (if contentValid nfc s.content s.contentDigest then [] else
    [⟨.vocabularySnapshotDigestInvalid, s.snapshotId,
      "Vocabulary snapshot digest does not match canonical content."⟩]) ++
  s.mappings.flatMap (mappingIssues nfc s) ++
  duplicates VocabularyMapping.mappingId s.mappings (fun mappingId count =>
    ⟨.duplicateMappingId, mappingId, s!"Mapping ID appears {count} times."⟩) ++
  duplicates (mappingBindingKey nfc)
    (s.mappings.filter fun m => m.mappingKind ≠ .mappingCandidateOnly) (fun binding count =>
      ⟨.duplicateActiveMappingBinding, binding, s!"Mapping binding has {count} active mappings."⟩)

def approvalIssues (nfc : Nfc) (s : ClassificationSnapshot) (a : ClassificationApproval) :
    List AuthorityValidationIssue :=
  (if a.authorityScope ≠ s.authorityScope then [⟨.authorityScopeMismatch, a.approvalId,
    "Classification approval authority scope differs from its snapshot."⟩] else []) ++
  (if contentValid nfc a.content a.contentDigest then [] else
    [⟨.classificationApprovalDigestInvalid, a.approvalId,
      "Classification approval digest does not match canonical content."⟩]) ++
  (if Text.strip a.approvalRef.toList = [] then [⟨.emptyApprovalReference, a.approvalId,
    "Classification approval has no approval reference."⟩] else []) ++
  (if a.evidenceRefs = [] then [⟨.emptyClassificationEvidence, a.approvalId,
    "Classification approval has no evidence reference."⟩] else []) ++
  (if timestampActive s.effectiveTimestamp a.validFrom a.validTo then [] else
    [⟨.approvalNotEffectiveAtSnapshot, a.approvalId,
      "Classification approval is not effective at the snapshot timestamp."⟩])

/-- `_validate_classification`. -/
def classificationIssues (nfc : Nfc) (s : ClassificationSnapshot) :
    List AuthorityValidationIssue :=
  (if contentValid nfc s.content s.contentDigest then [] else
    [⟨.classificationSnapshotDigestInvalid, s.snapshotId,
      "Classification snapshot digest does not match canonical content."⟩]) ++
  s.approvals.flatMap (approvalIssues nfc s) ++
  duplicates ClassificationApproval.approvalId s.approvals (fun approvalId count =>
    ⟨.duplicateApprovalId, approvalId, s!"Approval ID appears {count} times."⟩) ++
  duplicates ClassificationApproval.classificationObservationRef s.approvals
    (fun observationRef count => ⟨.duplicateClassificationApproval, observationRef,
      s!"Classification observation has {count} active approvals."⟩)

/-- The issues of `AuthoritySnapshotValidator.validate`, before they are sorted. -/
def authorityIssues (nfc : Nfc) (v : VocabularySnapshot) (c : ClassificationSnapshot) :
    List AuthorityValidationIssue :=
  vocabularyIssues nfc v ++ classificationIssues nfc c ++
  (if v.authorityScope ≠ c.authorityScope then
    [⟨.authorityScopeMismatch, v.snapshotId ++ "|" ++ c.snapshotId,
      "Vocabulary and classification snapshots use different authority scopes."⟩] else [])

inductive AuthorityValidationStatus where
  | valid
  | invalid
deriving DecidableEq

/-- The `validation_status` of `AuthoritySnapshotValidator.validate`. -/
def validationStatus (nfc : Nfc) (v : VocabularySnapshot) (c : ClassificationSnapshot) :
    AuthorityValidationStatus :=
  if authorityIssues nfc v c = [] then .valid else .invalid

end AtlasDb.Bdd
