import AtlasDb.Runtime.Planner

/-!
# Runtime verification

`runtime/verify.py: RuntimeVerifier.verify`. The digests of plans and records are taken by a
function that is not looked into; the ids of findings are digests of their codes and references.
-/

namespace AtlasDb.Runtime

open Core Analysis

/-! ## Plans and execution records -/

/-- The part of a plan the verifier reads. -/
structure RuntimeVerificationPlan where
  planId : String
  expectedObservations : List RuntimeExpectedObservation
  contentDigest : String

structure RuntimeObservedParameter where
  parameterName : String
  value : RuntimeValue
deriving DecidableEq

/-- The part of a row change the verifier reads. -/
structure RuntimeRowChange where
  effectRef : Option String
deriving DecidableEq

inductive RuntimeExecutionStatus
  | succeeded | failed | blocked
deriving DecidableEq

structure RuntimeExecutionRecord where
  executionId : String
  planRef : String
  planDigest : String
  executionStatus : RuntimeExecutionStatus
  outputParameters : List RuntimeObservedParameter
  sqlstate : Option String
  observedEffectRefs : List String
  rowChanges : List RuntimeRowChange
  calledRoutines : List String
  contentDigest : String

/-- `canonical_digest(model_dump(exclude={"content_digest"}))` of plans and records. -/
structure Digests where
  plan : RuntimeVerificationPlan → String
  record : RuntimeExecutionRecord → String

/-! ## Results -/

inductive RuntimeVerificationStatus
  | matched | mismatch | inconclusive | blocked | executionFailed
deriving DecidableEq

inductive RuntimeVerificationFindingCode
  | runtimePlanDigestInvalid | executionRecordDigestInvalid | planScriptMismatch
  | mustEffectNotObserved | mustNotEffectObserved | outParameterValueMismatch
  | staticRuntimeEvidenceConflict | executionFailed | runtimeResultInconclusive
deriving DecidableEq

/-- What a finding is about. -/
inductive EvidenceRef
  | plan (planId : String)
  | execution (executionId : String)
  | expectation (expected : RuntimeExpectedObservation)
deriving DecidableEq

structure RuntimeVerificationFinding where
  code : RuntimeVerificationFindingCode
  evidenceRef : EvidenceRef
deriving DecidableEq

structure RuntimeExpectationResult where
  expectation : RuntimeExpectedObservation
  matched : Bool
  observedRefs : List String
  findings : List RuntimeVerificationFinding
deriving DecidableEq

structure RuntimeVerificationResult where
  verificationStatus : RuntimeVerificationStatus
  expectationResults : List RuntimeExpectationResult
  findings : List RuntimeVerificationFinding
  staticRuntimeConflict : Bool
deriving DecidableEq

/-! ## Verification -/

/-- The refs of changed rows. -/
def RuntimeExecutionRecord.changeRefs (execution : RuntimeExecutionRecord) : List String :=
  (execution.rowChanges.filterMap RuntimeRowChange.effectRef).filter (· ≠ "")

/-- `sorted(set(refs))` -/
def sortedRefs (refs : List String) : List String :=
  refs.dedup.mergeSort fun a b => decide (a ≤ b)

/-- `_match`: whether the observation was made, and what was seen. -/
def observe (upper : String → String) (expected : RuntimeExpectedObservation)
    (execution : RuntimeExecutionRecord) :
    Bool × List String :=
  match expected.observationKind with
  | .outParameter =>
    let found := execution.outputParameters.filter fun p =>
      upper p.parameterName = upper (expected.target.getD "")
    if found = [] then (false, [])
    else
      match expected.expectedValue with
      | none => (true, found.map RuntimeObservedParameter.parameterName)
      | some value =>
        (found.any fun p => p.value = value, found.map RuntimeObservedParameter.parameterName)
  | .sqlstate =>
    match execution.sqlstate with
    | none => (false, [])
    | some sqlstate => (true, [sqlstate])
  | .dmlEffect =>
    let refs := execution.observedEffectRefs ++ execution.changeRefs
    (decide (expected.scenarioEffectRef ∈ refs), sortedRefs refs)
  | .callEffect =>
    let target := expected.target.getD ""
    let called := if target = "" then [] else
      execution.calledRoutines.filter fun r => upper r = upper target
    let refs := execution.observedEffectRefs ++ called
    (decide (expected.scenarioEffectRef ∈ refs) || (target ≠ "" && decide (target ∈ refs)),
      sortedRefs refs)
  | .resultSet | .effectReference =>
    (decide (expected.scenarioEffectRef ∈ execution.observedEffectRefs),
      sortedRefs execution.observedEffectRefs)

/-- The finding about an expectation, if there is a conflict. -/
def conflictFinding (upper : String → String) (expected : RuntimeExpectedObservation)
    (execution : RuntimeExecutionRecord) :
    Option RuntimeVerificationFinding :=
  let (matched, observed) := observe upper expected execution
  if expected.modality = .must ∧ matched = false then
    some ⟨if expected.observationKind = .outParameter ∧ observed ≠ [] then
        .outParameterValueMismatch else .mustEffectNotObserved, .expectation expected⟩
  else if expected.modality = .mustNot ∧ matched = true then
    some ⟨.mustNotEffectObserved, .expectation expected⟩
  else none

/-- The checks before the expectations are looked at. -/
def admissionFindings (digests : Digests) (plan : RuntimeVerificationPlan)
    (execution : RuntimeExecutionRecord) : List RuntimeVerificationFinding :=
  (if digests.plan plan ≠ plan.contentDigest then
    [⟨.runtimePlanDigestInvalid, .plan plan.planId⟩] else []) ++
  (if digests.record execution ≠ execution.contentDigest then
    [⟨.executionRecordDigestInvalid, .execution execution.executionId⟩] else []) ++
  (if execution.planRef ≠ plan.planId ∨ execution.planDigest ≠ plan.contentDigest then
    [⟨.planScriptMismatch, .execution execution.executionId⟩] else [])

/-- The results and findings of the expectations, once the record is admitted. -/
def verifyExpectations (upper : String → String) (plan : RuntimeVerificationPlan)
    (execution : RuntimeExecutionRecord) :
    RuntimeVerificationResult :=
  let conflicts := plan.expectedObservations.filterMap fun e => conflictFinding upper e execution
  let results := plan.expectedObservations.map fun e =>
    ⟨e, (observe upper e execution).1, (observe upper e execution).2,
      (conflictFinding upper e execution).toList⟩
  if conflicts ≠ [] then
    ⟨.mismatch, results, conflicts ++ [⟨.staticRuntimeEvidenceConflict, .plan plan.planId⟩], true⟩
  else if plan.expectedObservations.any fun e => e.modality = .unknown then
    ⟨.inconclusive, results, [⟨.runtimeResultInconclusive, .plan plan.planId⟩], false⟩
  else ⟨.matched, results, [], false⟩

/-- `RuntimeVerifier.verify`. -/
def verify (upper : String → String) (digests : Digests) (plan : RuntimeVerificationPlan)
    (execution : RuntimeExecutionRecord) : RuntimeVerificationResult :=
  let findings := admissionFindings digests plan execution
  if findings ≠ [] then ⟨.blocked, [], findings, false⟩
  else
    match execution.executionStatus with
    | .failed =>
      ⟨.executionFailed, [], [⟨.executionFailed, .execution execution.executionId⟩], false⟩
    | .blocked => ⟨.blocked, [], [], false⟩
    | .succeeded => verifyExpectations upper plan execution

/-! ## What it is for -/

/-- Values that are the same to a reader: numbers of one value, other texts letter by letter. -/
def sameValue : RuntimeValue → RuntimeValue → Bool
  | .null, .null => true
  | .of kind text, .of kind' text' =>
    text = text' ||
      ((kind = .integer || kind = .decimal) && (kind' = .integer || kind' = .decimal) &&
        (numericValue text).isSome && numericValue text = numericValue text')
  | _, _ => false

/-- The routine was called, in whatever spelling. -/
def WasCalled (upper : String → String) (target : String) (execution : RuntimeExecutionRecord) :
    Prop :=
  target ≠ "" ∧ ∃ routine ∈ execution.calledRoutines, upper routine = upper target

instance WasCalled.decidable (upper : String → String) (target : String)
    (execution : RuntimeExecutionRecord) : Decidable (WasCalled upper target execution) :=
  inferInstanceAs (Decidable (_ ∧ _))

/-- The execution met the expectation of an effect. `raised` is the SQLSTATE that a SIGNAL
raises. -/
def Met (upper : String → String) (raised : EffectCandidate → Option String)
    (effect : EffectCandidate)
    (expected : RuntimeExpectedObservation) (execution : RuntimeExecutionRecord) : Prop :=
  match effect.effectKind with
  | .outParameterAssignment =>
    ∃ p ∈ execution.outputParameters,
      upper p.parameterName = upper (effect.target.getD "") ∧
        ∀ value, expected.expectedValue = some value → sameValue p.value value = true
  | .signal | .resignal => ∃ sqlstate, execution.sqlstate = some sqlstate ∧
      raised effect = some sqlstate
  | .call => WasCalled upper (effect.target.getD "") execution
  | .dml | .dynamicSql =>
    expected.scenarioEffectRef ∈ execution.observedEffectRefs ++ execution.changeRefs
  | _ => expected.scenarioEffectRef ∈ execution.observedEffectRefs

/-- The verifier takes an unmet expectation for met or a met one for unmet: it accepts any SQLSTATE
for a SIGNAL, compares values of parameters by kind and spelling, and looks for the target of a call
only as it is spelled, or else for the effect or the target among the effect references. -/
def Misjudged (upper : String → String) (raised : EffectCandidate → Option String)
    (effect : EffectCandidate)
    (expected : RuntimeExpectedObservation) (execution : RuntimeExecutionRecord) : Prop :=
  match effect.effectKind with
  | .outParameterAssignment =>
    ∃ value, expected.expectedValue = some value ∧
      (∃ p ∈ execution.outputParameters,
        upper p.parameterName = upper (effect.target.getD "") ∧
          sameValue p.value value = true) ∧
      ∀ p ∈ execution.outputParameters,
        upper p.parameterName = upper (effect.target.getD "") →
          p.value ≠ value
  | .signal | .resignal =>
    ∃ sqlstate, execution.sqlstate = some sqlstate ∧ raised effect ≠ some sqlstate
  | .call =>
    let target := effect.target.getD ""
    if WasCalled upper target execution then
      expected.scenarioEffectRef ∉ execution.observedEffectRefs ∧
        target ∉ execution.observedEffectRefs ∧
        ∀ routine ∈ execution.calledRoutines, upper routine = upper target →
          routine ≠ target ∧ routine ≠ expected.scenarioEffectRef
    else expected.scenarioEffectRef ∈ execution.observedEffectRefs ∨
      target ≠ "" ∧ target ∈ execution.observedEffectRefs
  | _ => False

theorem sameValue_self (value : RuntimeValue) : sameValue value value = true := by
  cases value <;> simp [sameValue]

section

variable {upper : String → String} {raised : EffectCandidate → Option String}
  {scenarioEffect : ScenarioEffect} {effect : EffectCandidate} {execution : RuntimeExecutionRecord}

/-! ### One expectation -/

/-- The outputs under the name of the effect's target. -/
def namedOutputs (upper : String → String) (effect : EffectCandidate)
    (execution : RuntimeExecutionRecord) :
    List RuntimeObservedParameter :=
  execution.outputParameters.filter fun p =>
    upper p.parameterName = upper (effect.target.getD "")

theorem mem_namedOutputs {p : RuntimeObservedParameter} :
    p ∈ namedOutputs upper effect execution ↔ p ∈ execution.outputParameters ∧
      upper p.parameterName = upper (effect.target.getD "") := by
  simp [namedOutputs]

/-- An output parameter is judged rightly unless misjudged. -/
theorem observe_out (hkind : effect.effectKind = .outParameterAssignment) :
    ((observe upper (expectation scenarioEffect effect) execution).1 = true ↔
      Met upper raised effect (expectation scenarioEffect effect) execution) ↔
    ¬ Misjudged upper raised effect (expectation scenarioEffect effect) execution := by
  have hobserve : (observe upper (expectation scenarioEffect effect) execution).1 = true ↔
      ∃ p ∈ namedOutputs upper effect execution,
        ∀ value, (expectation scenarioEffect effect).expectedValue = some value →
          p.value = value := by
    have hdef : (observe upper (expectation scenarioEffect effect) execution).1 =
        (decide (namedOutputs upper effect execution ≠ []) &&
          match (expectation scenarioEffect effect).expectedValue with
          | none => true
          | some value => (namedOutputs upper effect execution).any fun p => p.value = value) := by
      have hout : (expectation scenarioEffect effect).observationKind = .outParameter := by
        simp only [expectation, observationKind, hkind]
      unfold observe
      simp only [hout]
      show (if namedOutputs upper effect execution = [] then (false, [])
        else _ : Bool × List String).1 = _
      by_cases hfound : namedOutputs upper effect execution = []
      · simp [hfound]
      · rw [if_neg hfound]
        cases (expectation scenarioEffect effect).expectedValue with
        | none => simp [hfound]
        | some value =>
          simp only [hfound, ne_eq, not_false_eq_true, decide_true, Bool.true_and]
          rfl
    rw [hdef]
    cases (expectation scenarioEffect effect).expectedValue with
    | none =>
      have hmem : namedOutputs upper effect execution ≠ [] ↔
        ∃ p, p ∈ namedOutputs upper effect execution :=
        ⟨fun hne => List.exists_mem_of_ne_nil _ hne, fun ⟨p, hp⟩ => List.ne_nil_of_mem hp⟩
      simpa using hmem
    | some value =>
      rw [Bool.and_eq_true, List.any_eq_true]
      simp only [decide_eq_true_eq, Option.some.injEq, forall_eq']
      exact and_iff_right_of_imp fun ⟨p, hp, _⟩ => List.ne_nil_of_mem hp
  have hmet : Met upper raised effect (expectation scenarioEffect effect) execution ↔
      ∃ p ∈ namedOutputs upper effect execution,
        ∀ value, (expectation scenarioEffect effect).expectedValue = some value →
          sameValue p.value value = true := by
    simp only [Met, hkind, mem_namedOutputs, and_assoc]
  have hmisjudged : Misjudged upper raised effect (expectation scenarioEffect effect) execution ↔
      ∃ value, (expectation scenarioEffect effect).expectedValue = some value ∧
        (∃ p ∈ namedOutputs upper effect execution, sameValue p.value value = true) ∧
        ∀ p ∈ namedOutputs upper effect execution, p.value ≠ value := by
    simp only [Misjudged, hkind, mem_namedOutputs, and_assoc, and_imp]
  rw [hobserve, hmet, hmisjudged]
  cases (expectation scenarioEffect effect).expectedValue with
  | none => simp
  | some value =>
    have hequal : (∃ p ∈ namedOutputs upper effect execution, p.value = value) →
        ∃ p ∈ namedOutputs upper effect execution, sameValue p.value value = true := by
      rintro ⟨p, hp, rfl⟩
      exact ⟨p, hp, sameValue_self _⟩
    simp only [Option.some.injEq, forall_eq', exists_eq_left']
    constructor
    · rintro hiff ⟨hsame, hnone⟩
      obtain ⟨p, hp, heq⟩ := hiff.mpr hsame
      exact hnone p hp heq
    · intro hfair
      refine ⟨hequal, fun hsame => ?_⟩
      by_contra hnone
      exact hfair ⟨hsame, fun p hp heq => hnone ⟨p, hp, heq⟩⟩

theorem observe_signal (hkind : effect.effectKind = .signal ∨ effect.effectKind = .resignal) :
    ((observe upper (expectation scenarioEffect effect) execution).1 = true ↔
      Met upper raised effect (expectation scenarioEffect effect) execution) ↔
    ¬ Misjudged upper raised effect (expectation scenarioEffect effect) execution := by
  have hobserve : (observe upper (expectation scenarioEffect effect) execution).1 = true ↔
      execution.sqlstate.isSome = true := by
    rcases hkind with hkind | hkind <;>
      cases hstate : execution.sqlstate <;>
        simp [observe, expectation, observationKind, hkind, hstate]
  have hmet : Met upper raised effect (expectation scenarioEffect effect) execution ↔
      ∃ sqlstate, execution.sqlstate = some sqlstate ∧ raised effect = some sqlstate := by
    rcases hkind with hkind | hkind <;> simp only [Met, hkind]
  have hmisjudged : Misjudged upper raised effect (expectation scenarioEffect effect) execution ↔
      ∃ sqlstate, execution.sqlstate = some sqlstate ∧ raised effect ≠ some sqlstate := by
    rcases hkind with hkind | hkind <;> simp only [Misjudged, hkind]
  rw [hobserve, hmet, hmisjudged]
  cases execution.sqlstate <;> simp

/-- So is a call. -/
theorem observe_call (hkind : effect.effectKind = .call) :
    ((observe upper (expectation scenarioEffect effect) execution).1 = true ↔
      Met upper raised effect (expectation scenarioEffect effect) execution) ↔
    ¬ Misjudged upper raised effect (expectation scenarioEffect effect) execution := by
  have hobserve : (observe upper (expectation scenarioEffect effect) execution).1 = true ↔
      scenarioEffect.effectRef ∈ execution.observedEffectRefs ∨
        (effect.target.getD "" ≠ "" ∧ (effect.target.getD "" ∈ execution.observedEffectRefs ∨
          ∃ routine ∈ execution.calledRoutines,
            upper routine = upper (effect.target.getD "") ∧
              (routine = effect.target.getD "" ∨ routine = scenarioEffect.effectRef))) := by
    unfold observe
    simp only [expectation, observationKind, hkind]
    by_cases hempty : effect.effectId.target.getD "" = ""
    · simp [hempty, EffectCandidate.target]
    · simp only [hempty, if_false, ne_eq, not_false_eq_true, decide_true, Bool.true_and,
        Bool.or_eq_true, decide_eq_true_eq, List.mem_append, List.mem_filter,
        EffectCandidate.target,
        true_and]
      constructor
      · rintro ((href | ⟨href, heq⟩) | (htarget | ⟨htarget, heq⟩))
        · exact .inl href
        · exact .inr (.inr ⟨_, href, heq, .inr rfl⟩)
        · exact .inr (.inl htarget)
        · exact .inr (.inr ⟨_, htarget, rfl, .inl rfl⟩)
      · rintro (href | htarget | ⟨routine, hroutine, heq, rfl | rfl⟩)
        · exact .inl (.inl href)
        · exact .inr (.inl htarget)
        · exact .inr (.inr ⟨hroutine, trivial⟩)
        · exact .inl (.inr ⟨hroutine, heq⟩)
  rw [hobserve]
  unfold Met Misjudged
  simp only [hkind]
  have href : (expectation scenarioEffect effect).scenarioEffectRef = scenarioEffect.effectRef :=
    rfl
  rw [href]
  by_cases hcalled : WasCalled upper (effect.target.getD "") execution
  · -- the call is noticed by one of its spellings, or by what stands among the references
    rw [if_pos hcalled]
    have hne := hcalled.1
    grind
  · rw [if_neg hcalled]
    have hnone : effect.target.getD "" ≠ "" → ∀ routine ∈ execution.calledRoutines,
        upper routine ≠ upper (effect.target.getD "") :=
      fun hne routine hroutine heq => hcalled ⟨hne, routine, hroutine, heq⟩
    grind

theorem observe_iff_met :
    ((observe upper (expectation scenarioEffect effect) execution).1 = true ↔
      Met upper raised effect (expectation scenarioEffect effect) execution) ↔
    ¬ Misjudged upper raised effect (expectation scenarioEffect effect) execution := by
  cases hkind : effect.effectKind with
  | outParameterAssignment => exact observe_out hkind
  | signal => exact observe_signal (.inl hkind)
  | resignal => exact observe_signal (.inr hkind)
  | call => exact observe_call hkind
  | _ => simp [observe, expectation, observationKind, Met, Misjudged, hkind]

end

/-! ### The verdict -/

section

variable (upper : String → String) (raised : EffectCandidate → Option String)
  (effects : List (String × EffectCandidate)) (execution : RuntimeExecutionRecord)

/-- The expectation of an effect of the analysis is met. -/
def IsMet (e : RuntimeExpectedObservation) : Prop :=
  ∃ effect, effects.lookup e.scenarioEffectRef = some effect ∧ Met upper raised effect e execution

def IsMisjudged (e : RuntimeExpectedObservation) : Prop :=
  ∃ effect, effects.lookup e.scenarioEffectRef = some effect ∧
    Misjudged upper raised effect e execution

/-- A required effect is missing or a prohibited one is there. -/
def Contradicts (e : RuntimeExpectedObservation) : Prop :=
  e.modality = .must ∧ ¬ IsMet upper raised effects execution e ∨
    e.modality = .mustNot ∧ IsMet upper raised effects execution e

/-- Only these modalities can be contradicted. -/
def Binding (e : RuntimeExpectedObservation) : Prop := e.modality = .must ∨ e.modality = .mustNot

/-- MATCHED if nothing is open and nothing is contradicted, MISMATCH if something is. -/
def VerdictRight (plan : RuntimeVerificationPlan) (status : RuntimeVerificationStatus) : Prop :=
  (status = .matched ↔
    (∀ e ∈ plan.expectedObservations, e.modality ≠ .unknown) ∧
      (∀ e ∈ plan.expectedObservations, e.modality = .must →
        IsMet upper raised effects execution e) ∧
      ∀ e ∈ plan.expectedObservations, e.modality = .mustNot →
        ¬ IsMet upper raised effects execution e) ∧
  (status = .mismatch ↔
    ∃ e ∈ plan.expectedObservations, Contradicts upper raised effects execution e)

/-- No binding expectation is misjudged, or it does not show: there is a contradiction that is
judged rightly, or both a contradiction that goes unnoticed and one that is made up. -/
def MisjudgementsHidden (plan : RuntimeVerificationPlan) : Prop :=
  (∀ e ∈ plan.expectedObservations, Binding e → ¬ IsMisjudged upper raised effects execution e) ∨
  (∃ e ∈ plan.expectedObservations, ¬ IsMisjudged upper raised effects execution e ∧
    Contradicts upper raised effects execution e) ∨
  ((∃ e ∈ plan.expectedObservations, IsMisjudged upper raised effects execution e ∧
      Contradicts upper raised effects execution e) ∧
    ∃ e ∈ plan.expectedObservations, IsMisjudged upper raised effects execution e ∧ Binding e ∧
      ¬ Contradicts upper raised effects execution e)

variable {upper raised effects execution} {e : RuntimeExpectedObservation}

theorem conflictFinding_isSome :
    (conflictFinding upper e execution).isSome = true ↔
      e.modality = .must ∧ (observe upper e execution).1 = false ∨
        e.modality = .mustNot ∧ (observe upper e execution).1 = true := by
  unfold conflictFinding
  by_cases hmust : e.modality = .must ∧ (observe upper e execution).1 = false
  · simp [hmust]
  · by_cases hnot : e.modality = .mustNot ∧ (observe upper e execution).1 = true
    · simp [hnot]
    · simp [hmust, hnot]

variable {spec : ScenarioEffects} {plan : RuntimeVerificationPlan}

theorem conflictFinding_iff (he : e ∈ expectations spec effects) :
    (conflictFinding upper e execution).isSome = true ↔
      ¬ IsMisjudged upper raised effects execution e ∧
      Contradicts upper raised effects execution e ∨
        IsMisjudged upper raised effects execution e ∧ Binding e ∧
          ¬ Contradicts upper raised effects execution e := by
  obtain ⟨scenarioEffect, effect, hlookup, rfl⟩ := mem_expectations he
  have href : (expectation scenarioEffect effect).scenarioEffectRef = scenarioEffect.effectRef :=
    rfl
  have hmet : IsMet upper raised effects execution (expectation scenarioEffect effect) ↔
      Met upper raised effect (expectation scenarioEffect effect) execution := by
    rw [IsMet, href, hlookup]
    simp
  have hmisjudged : IsMisjudged upper raised effects execution (expectation scenarioEffect effect) ↔
      Misjudged upper raised effect (expectation scenarioEffect effect) execution := by
    rw [IsMisjudged, href, hlookup]
    simp
  have hobserve := @observe_iff_met upper raised scenarioEffect effect execution
  rw [conflictFinding_isSome, Contradicts, Binding, hmet, hmisjudged]
  cases hobs : (observe upper (expectation scenarioEffect effect) execution).1 <;>
    cases (expectation scenarioEffect effect).modality <;> simp [hobs] at hobserve ⊢ <;> tauto

theorem exists_conflict_iff :
    (plan.expectedObservations.filterMap fun e => conflictFinding upper e execution) ≠ [] ↔
      ∃ e ∈ plan.expectedObservations, (conflictFinding upper e execution).isSome = true := by
  rw [ne_eq, List.filterMap_eq_nil_iff]
  push Not
  simp [Option.isSome_iff_ne_none]

theorem verifyExpectations_mismatch :
    (verifyExpectations upper plan execution).verificationStatus = .mismatch ↔
      ∃ e ∈ plan.expectedObservations, (conflictFinding upper e execution).isSome = true := by
  rw [← exists_conflict_iff]
  by_cases hconflict : (plan.expectedObservations.filterMap fun e =>
    conflictFinding upper e execution) = []
  · by_cases hopen : plan.expectedObservations.any fun e => e.modality = .unknown
    · simp only [verifyExpectations, hconflict, hopen, ne_eq, not_true_eq_false, if_false, if_true,
        reduceCtorEq]
    · simp only [verifyExpectations, hconflict, hopen, ne_eq, not_true_eq_false, if_false,
        reduceCtorEq, Bool.false_eq_true]
  · simp only [verifyExpectations, hconflict, ne_eq, not_false_eq_true, if_true]

theorem verifyExpectations_matched :
    (verifyExpectations upper plan execution).verificationStatus = .matched ↔
      (∀ e ∈ plan.expectedObservations, e.modality ≠ .unknown) ∧
        (verifyExpectations upper plan execution).verificationStatus ≠ .mismatch := by
  have hany : (plan.expectedObservations.any fun e => e.modality = .unknown) = true ↔
      ¬ ∀ e ∈ plan.expectedObservations, e.modality ≠ .unknown := by
    simp
  rw [ne_eq, verifyExpectations_mismatch, ← exists_conflict_iff]
  by_cases hconflict : (plan.expectedObservations.filterMap fun e =>
    conflictFinding upper e execution) = []
  · by_cases hopen : (plan.expectedObservations.any fun e => e.modality = .unknown) = true
    · have hnot := hany.mp hopen
      simp only [verifyExpectations, hconflict, hopen, hnot, ne_eq, not_true_eq_false, if_false,
        if_true, reduceCtorEq, false_and]
    · have hall := not_not.mp (mt hany.mpr hopen)
      simp only [verifyExpectations, hconflict, hopen, ne_eq, not_true_eq_false, if_false,
        not_false_eq_true, and_true, true_iff, Bool.false_eq_true]
      exact hall
  · simp only [verifyExpectations, hconflict, ne_eq, not_false_eq_true, if_true, reduceCtorEq,
      not_true_eq_false, and_false]

theorem Contradicts.binding (h : Contradicts upper raised effects execution e) : Binding e := by
  rcases h with ⟨hmust, -⟩ | ⟨hnot, -⟩
  · exact .inl hmust
  · exact .inr hnot

theorem no_contradiction_iff :
    (¬ ∃ e ∈ plan.expectedObservations, Contradicts upper raised effects execution e) ↔
      (∀ e ∈ plan.expectedObservations, e.modality = .must →
        IsMet upper raised effects execution e) ∧
      ∀ e ∈ plan.expectedObservations, e.modality = .mustNot →
        ¬ IsMet upper raised effects execution e := by
  constructor
  · intro hnone
    refine ⟨fun e he hmust => ?_, fun e he hnot hmet => hnone ⟨e, he, .inr ⟨hnot, hmet⟩⟩⟩
    by_contra hunmet
    exact hnone ⟨e, he, .inl ⟨hmust, hunmet⟩⟩
  · rintro ⟨hall, hno⟩ ⟨e, he, ⟨hmust, hunmet⟩ | ⟨hnot, hmet⟩⟩
    · exact hunmet (hall e he hmust)
    · exact hno e he hnot hmet

theorem misjudgementsHidden_iff :
    MisjudgementsHidden upper raised effects execution plan ↔
      ((∃ e ∈ plan.expectedObservations,
        ¬ IsMisjudged upper raised effects execution e ∧
        Contradicts upper raised effects execution e ∨
          IsMisjudged upper raised effects execution e ∧ Binding e ∧
            ¬ Contradicts upper raised effects execution e) ↔
        ∃ e ∈ plan.expectedObservations, Contradicts upper raised effects execution e) := by
  unfold MisjudgementsHidden
  constructor
  · rintro (hfair | ⟨e, he, hright, hcontra⟩ | ⟨⟨e, he, hmis, hcontra⟩, e', he', hmade⟩)
    · constructor
      · rintro ⟨e, he, ⟨-, hcontra⟩ | ⟨hmis, hbinding, -⟩⟩
        · exact ⟨e, he, hcontra⟩
        · exact absurd hmis (hfair e he hbinding)
      · rintro ⟨e, he, hcontra⟩
        exact ⟨e, he, .inl ⟨hfair e he hcontra.binding, hcontra⟩⟩
    · exact ⟨fun _ => ⟨e, he, hcontra⟩, fun _ => ⟨e, he, .inl ⟨hright, hcontra⟩⟩⟩
    · exact ⟨fun _ => ⟨e, he, hcontra⟩, fun _ => ⟨e', he', .inr hmade⟩⟩
  · intro hiff
    by_cases hany : ∃ e ∈ plan.expectedObservations, Contradicts upper raised effects execution e
    · obtain ⟨e, he, ⟨hright, hcontra⟩ | hmade⟩ := hiff.mpr hany
      · exact .inr (.inl ⟨e, he, hright, hcontra⟩)
      · obtain ⟨e', he', hcontra⟩ := hany
        by_cases hmis : IsMisjudged upper raised effects execution e'
        · exact .inr (.inr ⟨⟨e', he', hmis, hcontra⟩, e, he, hmade⟩)
        · exact .inr (.inl ⟨e', he', hmis, hcontra⟩)
    · refine .inl fun e he hbinding hmis => hany (hiff.mp ⟨e, he, .inr ⟨hmis, hbinding, ?_⟩⟩)
      exact fun hcontra => hany ⟨e, he, hcontra⟩

/-- For a plan of the planner and an admitted record of a successful execution, the verdict is right
exactly if no misjudgement shows. -/
theorem verify_right_iff (digests : Digests)
    (hplan : plan.expectedObservations.Perm (expectations spec effects))
    (hdigest : digests.plan plan = plan.contentDigest)
    (hrecord : digests.record execution = execution.contentDigest)
    (href : execution.planRef = plan.planId ∧ execution.planDigest = plan.contentDigest)
    (hstatus : execution.executionStatus = .succeeded) :
    VerdictRight upper raised effects execution plan
    (verify upper digests plan execution).verificationStatus ↔
      MisjudgementsHidden upper raised effects execution plan := by
  have hverify : verify upper digests plan execution = verifyExpectations upper plan execution := by
    simp [verify, admissionFindings, hdigest, hrecord, href, hstatus]
  have hconflict : (verifyExpectations upper plan execution).verificationStatus = .mismatch ↔
      ∃ e ∈ plan.expectedObservations,
        ¬ IsMisjudged upper raised effects execution e ∧
        Contradicts upper raised effects execution e ∨
          IsMisjudged upper raised effects execution e ∧ Binding e ∧
            ¬ Contradicts upper raised effects execution e := by
    rw [verifyExpectations_mismatch]
    refine exists_congr fun e => and_congr_right fun he => ?_
    exact conflictFinding_iff (hplan.mem_iff.mp he)
  rw [hverify, VerdictRight, verifyExpectations_matched, ← no_contradiction_iff,
    misjudgementsHidden_iff, ← hconflict]
  refine ⟨fun hright => hright.2, fun hiff => ⟨?_, hiff⟩⟩
  rw [ne_eq, hiff]

end

/-- An effect of a statement of the procedure. -/
def plainEffect (kind : EffectKind) (target valueExpression : Option String) : EffectCandidate where
  effectId := ⟨kind, "node-1", target, valueExpression, .escapingEffect⟩
  observability := .escapingEffect

/-- The plan that requires one effect. -/
def requiringPlan (effect : EffectCandidate) : RuntimeVerificationPlan where
  planId := "runtime-plan-1"
  expectedObservations := [expectation ⟨"effect-1", .must⟩ effect]
  contentDigest := "sha256:plan"

/-- A successful execution with nothing observed yet. -/
def plainRecord : RuntimeExecutionRecord where
  executionId := "runtime-execution-1"
  planRef := "runtime-plan-1"
  planDigest := "sha256:plan"
  executionStatus := .succeeded
  outputParameters := []
  sqlstate := none
  observedEffectRefs := []
  rowChanges := []
  calledRoutines := []
  contentDigest := "sha256:record"

def plainDigests : Digests := ⟨fun _ => "sha256:plan", fun _ => "sha256:record"⟩

/-- `SET P_RESULT = 'POSSIBLE'` -/
def possibleResult : EffectCandidate :=
  plainEffect .outParameterAssignment (some "P_RESULT") (some "'POSSIBLE'")

theorem possibleResult_right_iff :
    VerdictRight Text.upperString (fun _ => none) [("effect-1", possibleResult)]
        { plainRecord with outputParameters := [⟨"P_RESULT", .of .string "POSSIBLE"⟩] }
        (requiringPlan possibleResult)
        (verify Text.upperString plainDigests (requiringPlan possibleResult)
          { plainRecord with
            outputParameters := [⟨"P_RESULT", .of .string "POSSIBLE"⟩] }).verificationStatus ↔
      MisjudgementsHidden Text.upperString (fun _ => none) [("effect-1", possibleResult)]
        { plainRecord with outputParameters := [⟨"P_RESULT", .of .string "POSSIBLE"⟩] }
        (requiringPlan possibleResult) := by
  have hplan : (requiringPlan possibleResult).expectedObservations =
      expectations ⟨[⟨"effect-1", .must⟩], []⟩ [("effect-1", possibleResult)] := by
    simp [requiringPlan, expectations]
  exact verify_right_iff plainDigests (.of_eq hplan) rfl rfl ⟨rfl, rfl⟩ rfl

/-- `SIGNAL SQLSTATE '75001'` -/
def signalEffect : EffectCandidate := plainEffect .signal none (some "SIGNAL SQLSTATE '75001'")

/-- `CALL SETTLE_CLAIM()` -/
def callEffect : EffectCandidate := plainEffect .call (some "SETTLE_CLAIM") none

/-- Another SQLSTATE than the one signalled is taken for a match, and a call in lower case for a
mismatch. -/
theorem verdicts_wrong :
    ¬ VerdictRight Text.upperString (fun _ => some "75001") [("effect-1", signalEffect)]
        { plainRecord with sqlstate := some "23505" } (requiringPlan signalEffect)
        (verify Text.upperString plainDigests (requiringPlan signalEffect)
          { plainRecord with sqlstate := some "23505" }).verificationStatus ∧
    ¬ VerdictRight Text.upperString (fun _ => none) [("effect-1", callEffect)]
        { plainRecord with calledRoutines := ["settle_claim"] } (requiringPlan callEffect)
        (verify Text.upperString plainDigests (requiringPlan callEffect)
          { plainRecord with calledRoutines := ["settle_claim"] }).verificationStatus := by
  have hmatched : (verify Text.upperString plainDigests (requiringPlan signalEffect)
      { plainRecord with sqlstate := some "23505" }).verificationStatus = .matched := by
    decide +kernel
  have hmismatch : (verify Text.upperString plainDigests (requiringPlan callEffect)
      { plainRecord with calledRoutines := ["settle_claim"] }).verificationStatus = .mismatch := by
    decide +kernel
  have hname : Text.upperString "settle_claim" = Text.upperString "SETTLE_CLAIM" := by
    decide +kernel
  constructor
  · rintro ⟨hright, -⟩
    obtain ⟨-, hmust, -⟩ := hright.mp hmatched
    obtain ⟨effect, heffect, hmet⟩ := hmust _ (List.mem_singleton.mpr rfl) rfl
    obtain rfl : signalEffect = effect := by simpa [expectation] using heffect
    obtain ⟨sqlstate, hstate, hraised⟩ : ∃ sqlstate, some "23505" = some sqlstate ∧
        some "75001" = some sqlstate := hmet
    cases hstate
    exact absurd hraised (by decide)
  · rintro ⟨-, hright⟩
    obtain ⟨e, he, hcontra⟩ := hright.mp hmismatch
    obtain rfl : e = expectation ⟨"effect-1", .must⟩ callEffect := List.mem_singleton.mp he
    rcases hcontra with ⟨-, hunmet⟩ | ⟨hnot, -⟩
    · refine hunmet ⟨callEffect, by simp [expectation], ?_⟩
      exact ⟨by decide, "settle_claim", List.mem_singleton.mpr rfl, hname⟩
    · cases hnot

end AtlasDb.Runtime
