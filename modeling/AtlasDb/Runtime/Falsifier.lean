import AtlasDb.Runtime.Planner

/-!
# Falsification

`runtime/adapters/db2_luw.py: falsify` compares an observation with what a plan expects. The texts
of the contradictions are left out, what they are about is kept.
-/

namespace AtlasDb.Runtime

open Analysis

/-! ## Observations -/

structure ObservedParameter where
  parameterName : String
  canonicalValue : Option String
deriving DecidableEq

structure ObservedTableDelta where
  tableName : String
  rowsBefore : Nat
  rowsAfter : Nat
  digestBefore : String
  digestAfter : String
deriving DecidableEq

/-- The part of an observation record that is compared. -/
structure RuntimeObservationRecord where
  outputParameters : List ObservedParameter
  /-- the texts of the dynamic statements, where they were captured -/
  statementTexts : List (Option String)
  tableDeltas : List ObservedTableDelta
  captureComplete : Bool

/-- A contradiction and what it is about. -/
inductive Contradiction
  | outParameterValueMismatch (expectation : RuntimeExpectedObservation) (expected : String)
      (actual : Option String)
  | staticallyInfeasiblePathObserved (text : String)
  | dynamicVariantOutsideEnumeration (text : String)
  | undeclaredMutationObserved (delta : ObservedTableDelta)
deriving DecidableEq

structure FalsificationReport where
  contradictions : List Contradiction
  unobservedExpectations : List RuntimeExpectedObservation

/-! ## The comparison -/

/-- `observed_outputs.get(name)`: of two observations of one name the later one counts. -/
def RuntimeObservationRecord.output (observation : RuntimeObservationRecord) (name : String) :
    Option (Option String) :=
  (observation.outputParameters.reverse.map fun p =>
    (p.parameterName, p.canonicalValue)).lookup name

/-- The first loop, for one expectation: contradictions and whether it went unobserved. -/
def compareExpectation (observation : RuntimeObservationRecord)
    (expectation : RuntimeExpectedObservation) : List Contradiction × Bool :=
  let target := expectation.target.getD ""
  if expectation.observationKind.value = "OUT_PARAMETER" ∧ target ≠ "" then
    match observation.output target with
    | none => ([], true)
    | some actual =>
      match expectation.expectedValue.bind RuntimeValue.canonicalValue with
      | none => ([], false)
      | some expected =>
        if actual ≠ some expected then
          ([.outParameterValueMismatch expectation expected actual], false)
        else ([], false)
  else ([], expectation.modality = .must)

/-- `sorted(observed_texts)` -/
def observedTexts (observation : RuntimeObservationRecord) : List String :=
  (observation.statementTexts.filterMap id).dedup.mergeSort fun a b => decide (a ≤ b)

/-- The second loop, for one text. -/
def compareText (observation : RuntimeObservationRecord)
    (enumeratedDynamicVariants staticallyInfeasibleStatements : List String) (text : String) :
    List Contradiction :=
  (if text ∈ staticallyInfeasibleStatements
    then [.staticallyInfeasiblePathObserved text] else []) ++
  (if observation.captureComplete = true ∧ enumeratedDynamicVariants ≠ [] ∧
      text ∉ enumeratedDynamicVariants then [.dynamicVariantOutsideEnumeration text] else [])

/-- `declared_tables`. -/
def declaredTables (expected : List RuntimeExpectedObservation) : List String :=
  (expected.filter fun e => e.observationKind.value ∈ ["ROW_CHANGE", "TABLE_MUTATION"]).filterMap
    fun e => e.target.filter (· ≠ "")

/-- The third loop, for one table. -/
def compareDelta (expected : List RuntimeExpectedObservation) (delta : ObservedTableDelta) :
    List Contradiction :=
  if delta.digestBefore ≠ delta.digestAfter ∧ declaredTables expected ≠ [] ∧
      delta.tableName ∉ declaredTables expected then [.undeclaredMutationObserved delta] else []

/-- `falsify`. -/
def falsify (expected : List RuntimeExpectedObservation) (observation : RuntimeObservationRecord)
    (enumeratedDynamicVariants staticallyInfeasibleStatements : List String) :
    FalsificationReport where
  contradictions :=
    (expected.flatMap fun e => (compareExpectation observation e).1) ++
    ((observedTexts observation).flatMap
      (compareText observation enumeratedDynamicVariants staticallyInfeasibleStatements)) ++
    observation.tableDeltas.flatMap (compareDelta expected)
  unobservedExpectations :=
    (expected.filter fun e => (compareExpectation observation e).2).dedup

/-! ## What may be reported -/

/-- The observed value of the parameter differs from the literal it should have. -/
def DiffersFromLiteral (observation : RuntimeObservationRecord)
    (e : RuntimeExpectedObservation) : Prop :=
  ∃ target actual value, e.target = some target ∧ target ≠ "" ∧
    observation.output target = some actual ∧ e.expectedValue = some value ∧
    actual ≠ value.canonicalValue

/-- An expectation of a DML effect on the table. -/
def Declares (tableName : String) (e : RuntimeExpectedObservation) : Prop :=
  e.observationKind = .dmlEffect ∧ e.target = some tableName

/-- The report has exactly the contradictions that are licensed. -/
structure ReportsExactly (expected : List RuntimeExpectedObservation)
    (observation : RuntimeObservationRecord) (enumerated : List String)
    (contradictions : List Contradiction) : Prop where
  outParameters : ∀ e ∈ expected, e.observationKind = .outParameter →
    ((∃ literal actual, .outParameterValueMismatch e literal actual ∈ contradictions) ↔
      e.modality = .must ∧ DiffersFromLiteral observation e)
  mutations : ∀ delta ∈ observation.tableDeltas,
    (.undeclaredMutationObserved delta ∈ contradictions ↔
      delta.digestBefore ≠ delta.digestAfter ∧ ∀ e ∈ expected, ¬ Declares delta.tableName e)
  variants : ∀ text, .dynamicVariantOutsideEnumeration text ∈ contradictions →
    observation.captureComplete = true ∧ text ∉ enumerated
  matched : ∀ e ∈ expected, ¬ DiffersFromLiteral observation e →
    ∀ literal actual, .outParameterValueMismatch e literal actual ∉ contradictions

/-- A differing value is that of a required parameter with a literal other than NULL, and every
table that changed is declared. -/
def LicensedOnly (expected : List RuntimeExpectedObservation)
    (observation : RuntimeObservationRecord) : Prop :=
  (∀ e ∈ expected, e.observationKind = .outParameter → DiffersFromLiteral observation e →
    (e.modality = .must ↔ e.expectedValue ≠ some .null)) ∧
  ∀ delta ∈ observation.tableDeltas, delta.digestBefore ≠ delta.digestAfter →
    ∃ e ∈ expected, Declares delta.tableName e

section

variable {expected : List RuntimeExpectedObservation} {observation : RuntimeObservationRecord}
  {enumerated infeasible : List String}

theorem kind_value_eq_out {kind : RuntimeObservationKind} :
    kind.value = "OUT_PARAMETER" ↔ kind = .outParameter := by
  cases kind <;> decide

theorem declaredTables_eq_nil : declaredTables expected = [] := by
  have hnone : ∀ kind : RuntimeObservationKind, kind.value ∉ ["ROW_CHANGE", "TABLE_MUTATION"] := by
    intro kind
    cases kind <;> decide
  rw [declaredTables, List.filter_eq_nil_iff.mpr]
  · rfl
  · intro e _
    simpa using hnone e.observationKind

theorem mem_compareExpectation {e : RuntimeExpectedObservation} {c : Contradiction} :
    c ∈ (compareExpectation observation e).1 ↔
      ∃ literal actual, c = .outParameterValueMismatch e literal actual ∧
        e.observationKind = .outParameter ∧ e.target.getD "" ≠ "" ∧
        observation.output (e.target.getD "") = some actual ∧
        e.expectedValue.bind RuntimeValue.canonicalValue = some literal ∧
        actual ≠ some literal := by
  unfold compareExpectation
  simp only [kind_value_eq_out]
  by_cases hout : e.observationKind = .outParameter ∧ e.target.getD "" ≠ ""
  · rw [if_pos hout]
    cases houtput : observation.output (e.target.getD "") with
    | none => simp
    | some actual =>
      cases hexpected : e.expectedValue.bind RuntimeValue.canonicalValue with
      | none => simp
      | some literal =>
        by_cases hsame : actual = some literal
        · simp [hsame]
        · simp [hsame, hout]
  · rw [if_neg hout]
    constructor
    · intro hmem
      cases hmem
    · rintro ⟨literal, actual, -, hkind, htarget, -⟩
      exact absurd ⟨hkind, htarget⟩ hout

theorem mem_contradictions {c : Contradiction} :
    c ∈ (falsify expected observation enumerated infeasible).contradictions ↔
      (∃ e ∈ expected, c ∈ (compareExpectation observation e).1) ∨
      ∃ text ∈ observedTexts observation,
      c ∈ compareText observation enumerated infeasible text := by
  have hdeltas : observation.tableDeltas.flatMap (compareDelta expected) = [] := by
    simp [compareDelta, declaredTables_eq_nil]
  simp [falsify, hdeltas]

theorem mem_compareText {text : String} {c : Contradiction}
    (h : c ∈ compareText observation enumerated infeasible text) :
    c = .staticallyInfeasiblePathObserved text ∨
      c = .dynamicVariantOutsideEnumeration text ∧ observation.captureComplete = true ∧
        text ∉ enumerated := by
  rcases List.mem_append.mp h with hmem | hmem
  · by_cases hin : text ∈ infeasible
    · rw [if_pos hin] at hmem
      exact .inl (List.mem_singleton.mp hmem)
    · rw [if_neg hin] at hmem
      cases hmem
  · by_cases hout : observation.captureComplete = true ∧ enumerated ≠ [] ∧ text ∉ enumerated
    · rw [if_pos hout] at hmem
      exact .inr ⟨List.mem_singleton.mp hmem, hout.1, hout.2.2⟩
    · rw [if_neg hout] at hmem
      cases hmem

/-- When an output parameter is reported. -/
theorem reports_outParameter {e : RuntimeExpectedObservation} (he : e ∈ expected) :
    (∃ literal actual, .outParameterValueMismatch e literal actual ∈
        (falsify expected observation enumerated infeasible).contradictions) ↔
      e.observationKind = .outParameter ∧ DiffersFromLiteral observation e ∧
        e.expectedValue ≠ some .null := by
  constructor
  · rintro ⟨literal, actual, hmem⟩
    rcases mem_contradictions.mp hmem with ⟨e', -, hcompare⟩ | ⟨text, -, htext⟩
    · obtain ⟨literal', actual', heq, hkind, htarget, houtput, hliteral, hdiffers⟩ :=
        mem_compareExpectation.mp hcompare
      cases heq
      cases hvalue : e.expectedValue with
      | none => simp [hvalue] at hliteral
      | some value =>
        rw [hvalue, Option.bind_some] at hliteral
        cases htext : e.target with
        | none => simp [htext] at htarget
        | some target =>
          rw [htext, Option.getD_some] at htarget houtput
          refine ⟨hkind, ⟨target, _, value, htext, htarget, houtput, hvalue, ?_⟩, ?_⟩
          · rw [hliteral]
            exact hdiffers
          · rintro hnull
            cases hnull
            cases hliteral
    · rcases mem_compareText htext with heq | ⟨heq, -⟩ <;> cases heq
  · rintro ⟨hkind, ⟨target, actual, value, htarget, hne, houtput, hvalue, hdiffers⟩, hnull⟩
    cases value with
    | null => exact absurd hvalue hnull
    | of kind literal =>
      refine ⟨literal, actual, mem_contradictions.mpr (.inl ⟨e, he, ?_⟩)⟩
      refine mem_compareExpectation.mpr ⟨literal, actual, rfl, hkind, ?_⟩
      rw [htarget, Option.getD_some, hvalue]
      exact ⟨hne, houtput, rfl, hdiffers⟩

theorem no_mutation_reported (delta : ObservedTableDelta) :
    .undeclaredMutationObserved delta ∉
      (falsify expected observation enumerated infeasible).contradictions := by
  intro hmem
  rcases mem_contradictions.mp hmem with ⟨e, -, hcompare⟩ | ⟨text, -, htext⟩
  · obtain ⟨literal, actual, heq, -⟩ := mem_compareExpectation.mp hcompare
    cases heq
  · rcases mem_compareText htext with heq | ⟨heq, -⟩ <;> cases heq

/-- The report is exact if and only if only licensed differences occur and no undeclared table
changed. -/
theorem falsify_exact_iff :
    ReportsExactly expected observation enumerated
        (falsify expected observation enumerated infeasible).contradictions ↔
      LicensedOnly expected observation := by
  constructor
  · intro hexact
    refine ⟨fun e he hkind hdiffers => ?_, fun delta hdelta hchanged => ?_⟩
    · have hreported := (hexact.outParameters e he hkind).symm.trans (reports_outParameter he)
      simpa [hkind, hdiffers] using hreported
    · by_contra hundeclared
      refine no_mutation_reported delta ((hexact.mutations delta hdelta).mpr ⟨hchanged, ?_⟩)
      exact fun e he hdeclares => hundeclared ⟨e, he, hdeclares⟩
  · rintro ⟨hlicensed, hdeclared⟩
    refine ⟨fun e he hkind => ?_, fun delta hdelta => ?_, fun text hmem => ?_,
      fun e he hmatched literal actual hmem => ?_⟩
    · rw [reports_outParameter he]
      constructor
      · rintro ⟨-, hdiffers, hnull⟩
        exact ⟨(hlicensed e he hkind hdiffers).mpr hnull, hdiffers⟩
      · rintro ⟨hmust, hdiffers⟩
        exact ⟨hkind, hdiffers, (hlicensed e he hkind hdiffers).mp hmust⟩
    · refine ⟨fun hmem => absurd hmem (no_mutation_reported delta), ?_⟩
      rintro ⟨hchanged, hundeclared⟩
      obtain ⟨e, he, hdeclares⟩ := hdeclared delta hdelta hchanged
      exact absurd hdeclares (hundeclared e he)
    · rcases mem_contradictions.mp hmem with ⟨e, -, hcompare⟩ | ⟨other, -, htext⟩
      · obtain ⟨literal, actual, heq, -⟩ := mem_compareExpectation.mp hcompare
        cases heq
      · rcases mem_compareText htext with heq | ⟨heq, hcomplete, hout⟩
        · cases heq
        · cases heq
          exact ⟨hcomplete, hout⟩
    · exact hmatched ((reports_outParameter he).mp ⟨literal, actual, hmem⟩).2.1

end

/-- A table that changed although the plan expects nothing of it. -/
def strayMutation : RuntimeObservationRecord where
  outputParameters := []
  statementTexts := []
  tableDeltas := [⟨"CLAIMS.AUDIT", 1, 2, "sha256:before", "sha256:after"⟩]
  captureComplete := true

/-- The expectation of an update of another table. -/
def expectedUpdate : RuntimeExpectedObservation where
  scenarioEffectRef := "effect-1"
  modality := .must
  observationKind := .dmlEffect
  target := some "CLAIMS.CLAIM"
  expectedValue := none

/-- The stray change goes unreported. -/
theorem strayMutation_not_reported :
    ¬ ReportsExactly [expectedUpdate] strayMutation []
        (falsify [expectedUpdate] strayMutation [] []).contradictions := by
  intro hexact
  have hreported := (hexact.mutations _ (List.mem_singleton.mpr rfl)).mpr
    ⟨by decide, fun e he hdeclares => by
      obtain rfl := List.mem_singleton.mp he
      exact absurd hdeclares.2 (by decide)⟩
  exact absurd hreported (by decide +kernel)

end AtlasDb.Runtime
