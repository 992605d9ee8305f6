import AtlasDb.Bdd.Gates

/-!
# A batch with one effect

The smallest batch the scenario compiler returns: one specification with one effect that is certain
and no precondition. Its four requirements are the three titles and the effect, and it is compiled
when an approved mapping is found for each of them.
-/

namespace AtlasDb.Bdd

open Core Core.Timestamp Analysis Lib

/-! ## Its artifacts -/

def EffectClosureArtifact.withDigest (nfc : Nfc) (c : EffectClosureArtifact) :
    EffectClosureArtifact :=
  { c with contentDigest := digestText nfc (.record c.content) }

def ResolutionVectorArtifact.withDigest (nfc : Nfc) (r : ResolutionVectorArtifact) :
    ResolutionVectorArtifact :=
  { r with contentDigest := digestText nfc (.record r.content) }

def ScenarioCompilerBudgetReport.withDigest (nfc : Nfc) (b : ScenarioCompilerBudgetReport) :
    ScenarioCompilerBudgetReport :=
  { b with contentDigest := digestText nfc (.record b.content) }

def ScenarioSpec.withDigest (nfc : Nfc) (s : ScenarioSpec) : ScenarioSpec :=
  { s with contentDigest := digestText nfc (.record s.content) }

def ScenarioSpecBatchResult.withDigest (nfc : Nfc) (b : ScenarioSpecBatchResult) :
    ScenarioSpecBatchResult :=
  { b with contentDigest := digestText nfc (.record b.content) }

def VocabularyMapping.withDigest (nfc : Nfc) (m : VocabularyMapping) : VocabularyMapping :=
  { m with contentDigest := digestText nfc (.record m.content) }

def VocabularySnapshot.withDigest (nfc : Nfc) (s : VocabularySnapshot) : VocabularySnapshot :=
  { s with contentDigest := digestText nfc (.record s.content) }

def ClassificationSnapshot.withDigest (nfc : Nfc) (s : ClassificationSnapshot) :
    ClassificationSnapshot :=
  { s with contentDigest := digestText nfc (.record s.content) }

def singleClosure (effect : String) : EffectClosureArtifact :=
  ⟨"effect-closure", .closedWithinScope, [effect], [], [], ""⟩

def singleResolution : ResolutionVectorArtifact :=
  ⟨"resolution-vector", .resolved, .notApplicable, .notApplicable, .notApplicable, .notApplicable,
    .notApplicable, [], ""⟩

def singleBudget : ScenarioCompilerBudgetReport :=
  ⟨"budget-report", [("max_scenarios", 100)], [("max_scenarios", 1)], [], "COMPLETE", ""⟩

def singleEffect (effect : String) : ScenarioEffect := ⟨effect, .must, [], none⟩

def singleSpec (specId procedure effect : String) : ScenarioSpec where
  scenarioSpecId := specId
  behaviorId := "behavior"
  sourceSymbolId := "symbol"
  symbolLineageId := "lineage"
  procedureIdentityRef := procedure
  artifactRevisionId := "revision"
  behaviorEffectBundleRef := "effect-bundle"
  behaviorSliceRef := "slice"
  predicateGraphRef := none
  action := ⟨.procedureInvocation, procedure, "invocation-contract", none, []⟩
  preconditions := []
  expectedEffects := [singleEffect effect]
  alternativeOrConditionalEffects := []
  effectClosureRef := "effect-closure"
  resolutionVectorRef := "resolution-vector"
  summaryRefs := []
  orderedDecisionReductionRefs := []
  callerTransactionContractRefs := []
  analysisBudgetReportRef := "budget-report"
  findingRefs := []
  evidenceRefs := []
  requiredClassificationSlots := []
  requiredVocabularySlots := sortBy id
    [specId ++ ":ACTION", specId ++ ":SCENARIO_NAME", specId ++ ":EFFECT" ++ ":" ++ effect]
  platformGovernanceRef := none
  contentDigest := ""

def singleBatch (nfc : Nfc) (specId procedure effect : String) : ScenarioSpecBatchResult :=
  ScenarioSpecBatchResult.withDigest nfc
    { parserResultDigest := "parser-result"
      semanticResultDigest := "semantic-result"
      procedureIdentityRef := procedure
      sourceSymbolId := "symbol"
      symbolLineageId := "lineage"
      classificationObservations := []
      effectClosures := [(singleClosure effect).withDigest nfc]
      resolutionVectors := [singleResolution.withDigest nfc]
      budgetReports := [singleBudget.withDigest nfc]
      scenarioSpecs := [(singleSpec specId procedure effect).withDigest nfc]
      compilationResults := []
      contentDigest := "" }

/-! ## It is a batch of the scenario compiler -/

theorem projects_counts {nfc : Nfc} {values : List (String × Int)}
    (hname : (values.map Prod.fst).all asciiName = true) (hnodup : (values.map Prod.fst).Nodup) :
    Projects nfc (counts values) := by
  have hnames : (values.map fun entry => (entry.1, PyValue.int entry.2)).map Prod.fst
      = values.map Prod.fst := by
    rw [List.map_map]
    rfl
  refine projects_record (by rwa [hnames]) (by rwa [hnames]) fun f hf => ?_
  obtain ⟨entry, -, rfl⟩ := List.mem_map.1 hf
  exact projects_int entry.2

variable {nfc : Nfc} {specId procedure effect : String}

theorem projects_sealed {content : List (String × PyValue)} {contentDigest : String}
    (hname : (content.map Prod.fst).all asciiName = true)
    (hnodup : (content.map Prod.fst ++ ["content_digest"]).Nodup)
    (hvalue : ∀ f ∈ content, Projects nfc f.2) : Projects nfc (sealed content contentDigest) := by
  refine projects_record ?_ (by rwa [List.map_append]) fun f hf => ?_
  · have hdigest : asciiName "content_digest" = true := by decide
    rw [List.map_append, List.all_append, hname, List.map_singleton, List.all_cons, hdigest]
    rfl
  · rcases List.mem_append.1 hf with hf | hf
    · exact hvalue f hf
    · rw [List.mem_singleton.1 hf]
      exact projects_str _

theorem projects_closure (c : EffectClosureArtifact) :
    Projects nfc (sealed c.content c.contentDigest) :=
  projects_sealed
    (by simp only [EffectClosureArtifact.content, List.map_cons, List.map_nil]; decide)
    (by simp [EffectClosureArtifact.content])
    (by simp [EffectClosureArtifact.content, projects_enum, projects_texts])

theorem projects_resolution (r : ResolutionVectorArtifact) :
    Projects nfc (sealed r.content r.contentDigest) :=
  projects_sealed
    (by simp only [ResolutionVectorArtifact.content, List.map_cons, List.map_nil]; decide)
    (by simp [ResolutionVectorArtifact.content])
    (by simp [ResolutionVectorArtifact.content, projects_enum, projects_texts])

theorem projects_effect (e : ScenarioEffect) : Projects nfc e.dump :=
  projects_record (by simp only [List.map_cons, List.map_nil]; decide) (by simp)
    (by simp [projects_enum, projects_texts, projects_optionalText])

theorem projects_precondition (p : ScenarioPrecondition) : Projects nfc p.dump :=
  projects_record (by simp only [List.map_cons, List.map_nil]; decide) (by simp)
    (by simp [projects_texts, projects_optionalText])

theorem projects_action (a : ScenarioAction) : Projects nfc a.dump :=
  projects_record (by simp only [List.map_cons, List.map_nil]; decide) (by simp)
    (by simp [projects_texts, projects_optionalText])

theorem projects_spec (s : ScenarioSpec) : Projects nfc (sealed s.content s.contentDigest) := by
  have hpreconditions : Projects nfc (.list (s.preconditions.map ScenarioPrecondition.dump)) :=
    projects_list (by simp [projects_precondition])
  have heffects : ∀ effects : List ScenarioEffect,
      Projects nfc (.list (effects.map ScenarioEffect.dump)) :=
    fun effects => projects_list (by simp [projects_effect])
  refine projects_sealed
    (by simp only [ScenarioSpec.content, List.map_cons, List.map_nil]; decide)
    (by simp [ScenarioSpec.content]) ?_
  simp [ScenarioSpec.content, projects_texts, projects_optionalText, projects_action,
    hpreconditions,
    heffects]

theorem projects_budget {b : ScenarioCompilerBudgetReport}
    (hlimits : Projects nfc (counts b.configuredLimits))
    (hconsumed : Projects nfc (counts b.consumed)) :
    Projects nfc (.record b.content) ∧ Projects nfc (sealed b.content b.contentDigest) := by
  have hvalue : ∀ f ∈ b.content, Projects nfc f.2 := by
    simp [ScenarioCompilerBudgetReport.content, hlimits, hconsumed, projects_texts]
  have hname : (b.content.map Prod.fst).all asciiName = true := by
    simp only [ScenarioCompilerBudgetReport.content, List.map_cons, List.map_nil]
    decide
  exact ⟨projects_record hname (by simp [ScenarioCompilerBudgetReport.content]) hvalue,
    projects_sealed hname (by simp [ScenarioCompilerBudgetReport.content]) hvalue⟩

/-- A batch has a canonical form if its observations, its budget reports and the dumps of its
compilation results do. -/
theorem projects_batch {b : ScenarioSpecBatchResult}
    (hobservations : ∀ o ∈ b.classificationObservations, Projects nfc o.dump)
    (hbudgets : ∀ r ∈ b.budgetReports, Projects nfc (sealed r.content r.contentDigest))
    (hresults : ∀ r ∈ b.compilationResults, Projects nfc r) : Projects nfc (.record b.content) := by
  have hlist : ∀ {α : Type} {values : List α} {dump : α → PyValue},
      (∀ value ∈ values, Projects nfc (dump value)) → Projects nfc (.list (values.map dump)) := by
    intro α values dump h
    apply projects_list
    intro v hv
    obtain ⟨value, hvalue, rfl⟩ := List.mem_map.1 hv
    exact h value hvalue
  have hclosures := hlist fun c (_ : c ∈ b.effectClosures) => @projects_closure nfc c
  have hresolutions := hlist fun r (_ : r ∈ b.resolutionVectors) => @projects_resolution nfc r
  have hspecs := hlist fun s (_ : s ∈ b.scenarioSpecs) => @projects_spec nfc s
  refine projects_record
    (by simp only [ScenarioSpecBatchResult.content, List.map_cons, List.map_nil]; decide)
    (by simp [ScenarioSpecBatchResult.content]) ?_
  simp [ScenarioSpecBatchResult.content, hlist hobservations, hlist hbudgets, hclosures,
    hresolutions, hspecs, projects_list hresults]

theorem fromScenarioCompiler_single (hid : ':' ∉ specId.toList) (heffect : ':' ∉ effect.toList) :
    FromScenarioCompiler nfc (singleBatch nfc specId procedure effect) := by
  have hlimits : Projects nfc (counts singleBudget.configuredLimits) :=
    projects_counts (by decide) (by decide)
  have hconsumed : Projects nfc (counts singleBudget.consumed) :=
    projects_counts (by decide) (by decide)
  have hsealed : ∀ r ∈ (singleBatch nfc specId procedure effect).budgetReports,
      Projects nfc (sealed r.content r.contentDigest) := by
    intro r hr
    rw [List.mem_singleton.1 hr]
    exact (@projects_budget nfc (singleBudget.withDigest nfc) hlimits hconsumed).2
  refine ⟨List.nodup_singleton _, ?_, ?_, ?_, ?_, ?_, projects_batch nofun hsealed nofun, ?_, nofun⟩
  all_goals intro value hvalue; rw [List.mem_singleton.1 hvalue]
  · rfl
  · exact hid
  · exact nofun
  · exact nofun
  · intro e he
    rw [List.mem_singleton.1 he]
    exact heffect
  · exact (projects_budget hlimits hconsumed).1

/-! ## It has no blocker of its own -/

theorem batchBlockers_single (hid : ':' ∉ specId.toList) (heffect : ':' ∉ effect.toList) :
    batchBlockers nfc (singleBatch nfc specId procedure effect) = .ok [] := by
  have hfrom := @fromScenarioCompiler_single nfc specId procedure effect hid heffect
  have hbatch : digestValid nfc (.record (singleBatch nfc specId procedure effect).content)
      (singleBatch nfc specId procedure effect).contentDigest = .ok true := by
    rw [digestValid_eq hfrom.canonical]
    exact congrArg _ (contentValid_digestText _ _)
  have hbudget : digestValid nfc (.record (singleBudget.withDigest nfc).content)
      (singleBudget.withDigest nfc).contentDigest = .ok true := by
    rw [digestValid_eq (hfrom.budgets _ (List.mem_singleton_self _))]
    exact congrArg _ (contentValid_digestText _ _)
  have hnested : nestedInvalid nfc (singleBatch nfc specId procedure effect) = .ok false := by
    rw [nestedInvalid, if_neg, if_neg, if_neg]
    · show (List.anyM _ [singleBudget.withDigest nfc]) = _
      rw [List.anyM, hbudget]
      rfl
    · show ¬ ([singleResolution.withDigest nfc].any fun r =>
        !contentValid nfc r.content r.contentDigest) = true
      rw [List.any_cons, List.any_nil, Bool.or_false, Bool.not_eq_true, Bool.not_eq_false']
      exact contentValid_digestText _ _
    · show ¬ ([(singleClosure effect).withDigest nfc].any fun c =>
        !contentValid nfc c.content c.contentDigest) = true
      rw [List.any_cons, List.any_nil, Bool.or_false, Bool.not_eq_true, Bool.not_eq_false']
      exact contentValid_digestText _ _
    · show ¬ ([(singleSpec specId procedure effect).withDigest nfc].any fun s =>
        !contentValid nfc s.content s.contentDigest) = true
      rw [List.any_cons, List.any_nil, Bool.or_false, Bool.not_eq_true, Bool.not_eq_false']
      exact contentValid_digestText _ _
  rw [batchBlockers, hbatch, hnested]
  rfl

theorem nestedBlockers_single (hid : ':' ∉ specId.toList) (heffect : ':' ∉ effect.toList) :
    nestedBlockers nfc (singleBatch nfc specId procedure effect) .testFixtureOnly
      ((singleSpec specId procedure effect).withDigest nfc) = .ok [] := by
  have hfrom := @fromScenarioCompiler_single nfc specId procedure effect hid heffect
  have hclosure : findBy EffectClosureArtifact.effectClosureId
      (singleBatch nfc specId procedure effect).effectClosures
      ((singleSpec specId procedure effect).withDigest nfc).effectClosureRef
        = some ((singleClosure effect).withDigest nfc) := rfl
  have hresolution : findBy ResolutionVectorArtifact.resolutionVectorId
      (singleBatch nfc specId procedure effect).resolutionVectors
      ((singleSpec specId procedure effect).withDigest nfc).resolutionVectorRef
        = some (singleResolution.withDigest nfc) := rfl
  have hbudget : findBy ScenarioCompilerBudgetReport.budgetReportId
      (singleBatch nfc specId procedure effect).budgetReports
      ((singleSpec specId procedure effect).withDigest nfc).analysisBudgetReportRef
        = some (singleBudget.withDigest nfc) := rfl
  have hvalid : referredValid nfc ((singleClosure effect).withDigest nfc)
      (singleResolution.withDigest nfc) (singleBudget.withDigest nfc) = .ok true := by
    rw [referredValid, if_neg, if_neg, digestValid_eq (hfrom.budgets _ (List.mem_singleton_self _))]
    · exact congrArg _ (contentValid_digestText _ _)
    · rw [Bool.not_eq_true, Bool.not_eq_false']
      exact contentValid_digestText _ _
    · rw [Bool.not_eq_true, Bool.not_eq_false']
      exact contentValid_digestText _ _
  simp only [nestedBlockers, hclosure, hresolution, hbudget, hvalid]
  rfl

/-- The batch of one scenario has no blockers. -/
theorem unblocked_single {c : ClassificationSnapshot} {v : VocabularySnapshot}
    {effectiveTimestamp : Option String} {k : Compilation} (hid : ':' ∉ specId.toList)
    (heffect : ':' ∉ effect.toList)
    (hk : Prepared nfc (singleBatch nfc specId procedure effect) v c effectiveTimestamp k)
    (hscope : v.authorityScope = .testFixtureOnly) (hsnapshots : snapshotBlockers nfc v c = [])
    (hmapped : ∀ r ∈ k.requirementsOf ((singleSpec specId procedure effect).withDigest nfc),
      ∃ gate, mapRequirement v k.compileAt ((singleSpec specId procedure effect).withDigest nfc) r
        = .ok gate ∧ gate.blockers = []) :
    ∃ gates, specGates nfc k ((singleSpec specId procedure effect).withDigest nfc) = .ok gates ∧
      gates.blockers = [] := by
  obtain ⟨mappings, hmappings⟩ :=
    mapM_returns fun r hr => (hmapped r hr).imp fun gate hgate => hgate.1
  have hblockers : mappings.flatMap Gate.blockers = [] := by
    rw [List.flatMap_eq_nil_iff]
    intro gate hgate
    obtain ⟨r, hr, hrun⟩ := exists_source hmappings hgate
    obtain ⟨gate', hrun', hempty⟩ := hmapped r hr
    rw [Except.ok.inj (hrun.symm.trans hrun')]
    exact hempty
  have hown : k.blockers = [] := by
    obtain ⟨found, hfound, heq⟩ := hk.blocked
    rw [batchBlockers_single hid heffect] at hfound
    rw [heq, hsnapshots, ← Except.ok.inj hfound]
    rfl
  refine ⟨_, specGates_eq_ok.2 ⟨[], [], mappings, ?_, rfl, ?_, rfl⟩, ?_⟩
  · rw [hk.batch_eq, hk.vocabulary, hscope]
    exact nestedBlockers_single hid heffect
  · rw [hk.vocabulary]
    exact hmappings
  · have hvalid : contentValid nfc ((singleSpec specId procedure effect).withDigest nfc).content
        ((singleSpec specId procedure effect).withDigest nfc).contentDigest = true :=
      contentValid_digestText _ _
    rw [hown, hvalid, hblockers]
    rfl

/-! ## A vocabulary of manual mappings -/

theorem canonical_newYear :
    canonicalTimestamp "2026-01-01T00:00:00.000000Z" = some "2026-01-01T00:00:00.000000Z" := by
  decide +kernel

theorem stableId_ne (kind : String) (parts : List String) : stableId kind parts ≠ "" := by
  intro h
  have hlen := congrArg (fun text : String => text.toList.length) h
  simp [stableId] at hlen

/-- A slot of a specification, and the identifier of the mapping that is approved for it. -/
structure ApprovedSlot where
  mappingId : String
  kind : VocabularySlotKind
  source : String

/-- A mapping approved for one slot. -/
def manualMapping (nfc : Nfc) (specId template : String) (phrase : ApprovedPhrase template.toList)
    (slot : ApprovedSlot) : VocabularyMapping :=
  VocabularyMapping.withDigest nfc
    { mappingId := slot.mappingId
      mappingVersion := "1"
      mappingKind := .manuallyApprovedMapping
      normalizedTechnicalPatternRef := slot.mappingId
      structuralContextDigest := none
      symbolBindingRefs := []
      manualRequirementRef := some (requirementId specId slot.kind slot.source)
      phraseTemplate := template
      placeholderContract := []
      supportedModalities := [.must]
      approvalRef := "approval"
      authorityScope := .testFixtureOnly
      validFrom := "2026-01-01T00:00:00.000000Z"
      validTo := none
      evidenceRefs := ["evidence"]
      contentDigest := ""
      phrase := phrase
      validFrom_canonical := canonical_newYear
      validTo_canonical := nofun
      structural := nofun
      symbols := nofun
      manual := fun _ => by simpa [requirementId] using stableId_ne _ _
      names := List.nodup_nil }

def manualVocabulary (nfc : Nfc) (specId template : String)
    (phrase : ApprovedPhrase template.toList) (slots : List ApprovedSlot) : VocabularySnapshot :=
  VocabularySnapshot.withDigest nfc
    { snapshotId := "vocabulary-snapshot"
      registryVersion := "1"
      effectiveTimestamp := "2026-01-01T00:00:00.000000Z"
      authorityScope := .testFixtureOnly
      mappings := slots.map (manualMapping nfc specId template phrase)
      contentDigest := ""
      canonical := canonical_newYear }

def emptyClassification (nfc : Nfc) : ClassificationSnapshot :=
  ClassificationSnapshot.withDigest nfc
    { snapshotId := "classification-snapshot"
      registryVersion := "1"
      effectiveTimestamp := "2026-01-01T00:00:00.000000Z"
      authorityScope := .testFixtureOnly
      approvals := []
      contentDigest := ""
      canonical := canonical_newYear }

variable {template : String} {phrase : ApprovedPhrase template.toList} {slots : List ApprovedSlot}

theorem compileInstant_same {v : VocabularySnapshot} {c : ClassificationSnapshot} {instant : String}
    (hv : v.effectiveTimestamp = instant) (hc : c.effectiveTimestamp = instant) :
    compileInstant v c none = .ok instant := by
  have hcanonical := v.canonical
  rw [hv] at hcanonical
  simp only [compileInstant, hv, hc, Option.getD_none, if_true, ite_self, hcanonical]

theorem active_newYear : timestampActive "2026-01-01T00:00:00.000000Z" "2026-01-01T00:00:00.000000Z"
    none = true := by
  simp only [timestampActive, Option.map_none, Option.getD_none, Int.le_refl, decide_true,
    Bool.and_true]

theorem promotable_manual {r : VocabularyRequirement} :
    promotableMappings (manualVocabulary nfc specId template phrase slots)
        "2026-01-01T00:00:00.000000Z" r
      = (slots.filter fun slot => requirementId specId slot.kind slot.source = r.requirementId).map
          (manualMapping nfc specId template phrase) := by
  have hactive : ∀ slot, timestampActive "2026-01-01T00:00:00.000000Z"
      (manualMapping nfc specId template phrase slot).validFrom
      (manualMapping nfc specId template phrase slot).validTo = true := fun _ => active_newYear
  have hkind : ∀ slot, ((manualMapping nfc specId template phrase slot).mappingKind
      ≠ .mappingCandidateOnly) := fun _ => nofun
  have hmatches : ∀ slot, mappingMatches (manualMapping nfc specId template phrase slot) r
      = decide (requirementId specId slot.kind slot.source = r.requirementId) := by
    intro slot
    exact decide_eq_decide.2 Option.some_inj
  show ((((slots.map (manualMapping nfc specId template phrase)).filter fun m =>
    mappingMatches m r).filter fun m => timestampActive _ m.validFrom m.validTo).filter fun m =>
      m.mappingKind ≠ .mappingCandidateOnly) = _
  rw [List.filter_map, List.filter_map, List.filter_map, List.filter_filter, List.filter_filter]
  simp only [Function.comp_apply, hactive, hkind, hmatches, Bool.and_true, ne_eq, not_false_eq_true,
    decide_true, Bool.true_and]

theorem manualVocabulary_valid : contentValid nfc
      (manualVocabulary nfc specId template phrase slots).content
      (manualVocabulary nfc specId template phrase slots).contentDigest = true :=
  contentValid_digestText _ _

theorem emptyClassification_valid : contentValid nfc (emptyClassification nfc).content
    (emptyClassification nfc).contentDigest = true :=
  contentValid_digestText _ _

theorem manualMapping_valid (slot : ApprovedSlot) : contentValid nfc
    (manualMapping nfc specId template phrase slot).content
    (manualMapping nfc specId template phrase slot).contentDigest = true :=
  contentValid_digestText _ _

theorem snapshotBlockers_manual : snapshotBlockers nfc
    (manualVocabulary nfc specId template phrase slots) (emptyClassification nfc) = [] := by
  have hmappings : ((manualVocabulary nfc specId template phrase slots).mappings.any fun m =>
      !contentValid nfc m.content m.contentDigest) = false := by
    rw [List.any_eq_false]
    intro m hm
    obtain ⟨slot, -, rfl⟩ := List.mem_map.1 hm
    rw [manualMapping_valid]
    exact Bool.false_ne_true
  rw [snapshotBlockers, manualVocabulary_valid, emptyClassification_valid, hmappings]
  rfl

/-- Its requirements are mapped to the one template. -/
theorem mapRequirement_manual {r : VocabularyRequirement} {slot : ApprovedSlot}
    (hfieldless : Fieldless template.toList)
    (hone : (slots.filter fun slot =>
      requirementId specId slot.kind slot.source = r.requirementId) = [slot])
    (hmodality : r.slotKind = .effect → r.sourceRef = effect) :
    mapRequirement (manualVocabulary nfc specId template phrase slots) "2026-01-01T00:00:00.000000Z"
        ((singleSpec specId procedure effect).withDigest nfc) r
      = .ok ⟨[(r, manualMapping nfc specId template phrase slot)], []⟩ := by
  have hpromotable : promotableMappings (manualVocabulary nfc specId template phrase slots)
      "2026-01-01T00:00:00.000000Z" r = [manualMapping nfc specId template phrase slot] := by
    rw [promotable_manual, hone, List.map_singleton]
  have hactive := (List.mem_filter.1 (hpromotable ▸ List.mem_cons_self :
    manualMapping nfc specId template phrase slot ∈ promotableMappings _ _ r)).1
  have hbound : placeholderBindingsValid (manualMapping nfc specId template phrase slot) r
      = .ok true := by
    have hread := parseTemplate_of_wellFormed hfieldless.1
    have hfields : ((markups template.toList).1.filterMap fun markup =>
        markup.field.map fun field => String.ofList field.name) = [] := by
      rw [List.filterMap_eq_nil_iff]
      intro markup hmarkup
      rw [hfieldless.2 markup hmarkup]
      rfl
    rw [placeholderBindingsValid]
    show (parseTemplate template.toList >>= _) = _
    rw [hread]
    simp only [bind, Except.bind, hfields]
    rfl
  have hsupported : (r.slotKind = .effect && !(((findBy ScenarioEffect.effectRef
      ((singleSpec specId procedure effect).withDigest nfc).effects r.sourceRef).map
        ScenarioEffect.modality).any
          (manualMapping nfc specId template phrase slot).supportedModalities.contains)) =
          false := by
    by_cases hkind : r.slotKind = .effect
    · have heffect : findBy ScenarioEffect.effectRef
          ((singleSpec specId procedure effect).withDigest nfc).effects r.sourceRef
            = some (singleEffect effect) := by
        rw [hmodality hkind]
        simp [findBy, ScenarioSpec.effects, ScenarioSpec.withDigest, singleSpec, singleEffect]
      rw [heffect, Bool.and_eq_false_iff]
      exact .inr rfl
    · rw [decide_eq_false hkind, Bool.false_and]
  have hne : ∀ {α : Type} {x : α} {xs : List α}, x ∈ xs → xs.isEmpty = false := by
    intro α x xs hx
    cases xs with
    | nil => cases hx
    | cons x xs => rfl
  rw [mapRequirement]
  simp only [hne hactive, hne (List.mem_filter.1 hactive).1, hpromotable, hbound, hsupported]
  rfl

theorem filter_slot {slot : ApprovedSlot}
    (hnodup : (slots.map fun slot => requirementId specId slot.kind slot.source).Nodup)
    (hslot : slot ∈ slots) :
    (slots.filter fun other => requirementId specId other.kind other.source
      = requirementId specId slot.kind slot.source) = [slot] := by
  induction slots with
  | nil => cases hslot
  | cons first slots ih =>
    rw [List.map_cons, List.nodup_cons] at hnodup
    rcases List.mem_cons.1 hslot with rfl | hslot
    · rw [List.filter_cons_of_pos (by simp), List.filter_eq_nil_iff.2]
      intro other hother hsame
      exact hnodup.1 (List.mem_map.2 ⟨other, hother, of_decide_eq_true hsame⟩)
    · rw [List.filter_cons_of_neg, ih hnodup.2 hslot]
      intro hsame
      exact hnodup.1 (List.mem_map.2 ⟨slot, hslot, (of_decide_eq_true hsame).symm⟩)

/-- The slots of the four requirements, each with its own mapping. -/
def singleSlots (specId procedure effect : String) : List ApprovedSlot :=
  [⟨"feature", .featureTitle, procedure⟩, ⟨"name", .scenarioName, specId⟩,
    ⟨"action", .action, "PROCEDURE_INVOCATION:" ++ procedure⟩, ⟨"effect", .effect, effect⟩]

theorem exists_slot {kind : VocabularySlotKind} {source : String}
    (h : Needs ((singleSpec specId procedure effect).withDigest nfc) kind source) :
    ∃ slot ∈ singleSlots specId procedure effect, slot.kind = kind ∧ slot.source = source := by
  cases kind with
  | featureTitle =>
    exact ⟨⟨"feature", .featureTitle, procedure⟩, by simp [singleSlots], rfl, h.symm⟩
  | scenarioName => exact ⟨⟨"name", .scenarioName, specId⟩, by simp [singleSlots], rfl, h.symm⟩
  | action =>
    refine ⟨⟨"action", .action, "PROCEDURE_INVOCATION:" ++ procedure⟩, by simp [singleSlots], rfl,
      Eq.trans ?_ h.symm⟩
    simp [actionSource, ScenarioSpec.withDigest, singleSpec, ActionKind.value]
  | precondition =>
    obtain ⟨p, hp, -⟩ := h
    cases hp
  | effect =>
    obtain ⟨e, he, hsource⟩ := h
    rw [List.mem_singleton.1 he] at hsource
    exact ⟨⟨"effect", .effect, effect⟩, by simp [singleSlots], rfl, hsource⟩

end AtlasDb.Bdd
