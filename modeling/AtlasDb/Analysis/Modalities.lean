import AtlasDb.Analysis.Bundles

/-!
# Obligations

`analysis/modalities.py: EffectModalityAnalyzer`. The relationship of a member gives its modality,
which a cascade of overrides then changes: loops, incomplete bundles, unresolved effects and the
transaction analysis, in this order.
-/

namespace AtlasDb.Analysis

open Parsing

/-! ## Records -/

inductive EffectModality where
  | must
  | mustIfCallerContractHolds
  | may
  | mustNot
  | unknown
deriving DecidableEq

/-- The part of a loop summary the analyzer reads. -/
structure LoopSummaryCandidate where
  loopRegionRef : NodeRef
  analysisCompleteness : Completeness
deriving DecidableEq

structure EffectObligation where
  bundleRef : BundleId
  effectRef : EffectId
  relationship : EffectRelationship
  modality : EffectModality
  reasonCodes : List String
deriving DecidableEq

def EffectRelationship.value : EffectRelationship → String
  | .primary => "PRIMARY"
  | .requiredCoEffect => "REQUIRED_CO_EFFECT"
  | .conditionalCoEffect => "CONDITIONAL_CO_EFFECT"
  | .auditEffect => "AUDIT_EFFECT"
  | .rolledBackEffect => "ROLLED_BACK_EFFECT"

def TransactionSurvivalClassification.value : TransactionSurvivalClassification → String
  | .mustCommit => "MUST_COMMIT"
  | .mustRollback => "MUST_ROLLBACK"
  | .callerControlled => "CALLER_CONTROLLED"
  | .callerContractCommit => "CALLER_CONTRACT_COMMIT"
  | .mayCommitOrRollback => "MAY_COMMIT_OR_ROLLBACK"
  | .mayCommitOrCallerControlled => "MAY_COMMIT_OR_CALLER_CONTROLLED"
  | .callerControlledOrExceptional => "CALLER_CONTROLLED_OR_EXCEPTIONAL"
  | .mayCommitRollbackOrCallerControlled => "MAY_COMMIT_ROLLBACK_OR_CALLER_CONTROLLED"
  | .unresolved => "UNRESOLVED"

/-! ## The cascade -/

/-- A modality and the reasons given for it so far. -/
abbrev Verdict : Type := EffectModality × List String

/-- `_base`. -/
def baseVerdict (relationship : EffectRelationship) : Verdict :=
  match relationship with
  | .primary | .requiredCoEffect => (.must, [relationship.value])
  | .rolledBackEffect => (.mustNot, [relationship.value])
  | _ => (.may, [relationship.value])

/-- One loop around the effect. -/
def loopTurn (summaries : List LoopSummaryCandidate) (v : Verdict) (loop : NodeRef) : Verdict :=
  match summaries.reverse.find? (·.loopRegionRef = loop) with
  | some summary =>
    if summary.analysisCompleteness = .incomplete then (.unknown, v.2 ++ ["LOOP_SUMMARY_PARTIAL"])
    else v
  | none => (.unknown, v.2 ++ ["LOOP_SUMMARY_PARTIAL"])

/-- Loops around the effect, outside a bundle about one iteration. -/
def loopVerdict (summaries : List LoopSummaryCandidate) (scope : BehaviorActionScope)
    (loops : List NodeRef) (v : Verdict) : Verdict :=
  if loops = [] then v
  else if scope = .cursorIteration then (v.1, v.2 ++ ["ITERATION_SCOPED_BEHAVIOR"])
  else
    loops.foldl (loopTurn summaries)
      (if v.1 = .must then .may else v.1, v.2 ++ ["LOOP_EXECUTION_DATA_DEPENDENT"])

def bundleVerdict (completeness : Completeness) (v : Verdict) : Verdict :=
  if completeness = .incomplete ∧ v.1 = .must then (.unknown, v.2 ++ ["BUNDLE_PARTIAL"]) else v

/-- Effects whose extent is not known. -/
def boundaryVerdict (e : EffectCandidate) (v : Verdict) : Verdict :=
  let v :=
    if e.effectKind = .call then (.unknown, v.2 ++ ["UNRESOLVED_EFFECT_BOUNDARY"])
    else if e.effectKind = .dynamicSql ∧ e.observability = .unresolvedEffectBoundary then
      (.unknown, v.2 ++ ["UNRESOLVED_DYNAMIC_SQL_EFFECT_BOUNDARY"])
    else v
  if e.observability = .unresolvedEffectBoundary ∨
    e.observability = .transactionSurvivalUnresolved then
    (.unknown, v.2 ++ [e.observability.value])
  else v

def transactionVerdict (analysis : Option EffectTransactionAnalysis) (v : Verdict) : Verdict :=
  match analysis with
  | none => v
  | some a =>
    match a.classification with
    | .mustRollback => (.mustNot, v.2 ++ ["TRANSACTION_MUST_ROLLBACK"])
    | .callerContractCommit => (.mustIfCallerContractHolds, v.2 ++ ["CALLER_TRANSACTION_CONTRACT"])
    | .mustCommit => v
    | classification => (.unknown, v.2 ++ ["TRANSACTION_" ++ classification.value])

/-- `sorted(set(reasons))` -/
def sortedReasons (reasons : List String) : List String :=
  reasons.dedup.insertionSort fun a b => a.toList ≤ b.toList

section Analyze

variable (ast : ProcedureAst) (analyses : List EffectTransactionAnalysis)
  (summaries : List LoopSummaryCandidate)

/-- The modality of one member. -/
def memberVerdict (bundle : BehaviorEffectBundle) (relationship : EffectRelationship)
    (e : EffectCandidate) : Verdict :=
  let analysis := analyses.reverse.find? fun a => some a.analysisId = e.transactionAnalysisRef
  transactionVerdict analysis <| boundaryVerdict e <| bundleVerdict bundle.bundleCompleteness <|
    loopVerdict summaries bundle.actionScope (loopAncestors ast e.sourceNodeRef) <|
    baseVerdict relationship

/-- The obligations of one bundle. -/
def bundleObligations (effects : List EffectCandidate) (bundle : BehaviorEffectBundle) :
    List EffectObligation :=
  bundle.effectMembers.filterMap fun member =>
    (effects.reverse.find? (·.effectId = member.effectRef)).map fun e =>
      let verdict := memberVerdict ast analyses summaries bundle member.relationship e
      ⟨bundle.bundleId, e.effectId, member.relationship, verdict.1, sortedReasons verdict.2⟩

/-- `EffectModalityAnalyzer.analyze`. -/
def effectObligations (effects : List EffectCandidate) (bundles : List BehaviorEffectBundle) :
    List EffectObligation :=
  bundles.flatMap (bundleObligations ast analyses summaries effects)

end Analyze

/-! ## From effects to obligations -/

section Phase1

variable (nx : DominatorLibrary) (ast : ProcedureAst) (effects : List EffectCandidate)
  (contract : Option CallerTransactionContract)

/-- The bundles `Phase1SemanticAnalyzer.analyze` builds from the direct effects. -/
def phase1Bundles : List BehaviorEffectBundle :=
  let transactions := analyzeTransactions ast (.build ast) effects contract
  buildBundles nx ast (.build ast) transactions.2.1.transactionRegionId transactions.2.2
    transactions.1

/-- The obligations it derives for one of them. -/
def phase1Obligations (summaries : List LoopSummaryCandidate) (bundle : BehaviorEffectBundle) :
    List EffectObligation :=
  let transactions := analyzeTransactions ast (.build ast) effects contract
  bundleObligations ast transactions.2.2 summaries transactions.1 bundle

end Phase1

/-! ## What a definite modality rests on -/

variable {v : Verdict} {summaries : List LoopSummaryCandidate}
  {analyses : List EffectTransactionAnalysis} {bundle : BehaviorEffectBundle}

theorem loopTurn_ne_must (loop : NodeRef)
    (h : v.1 ≠ .must) : (loopTurn summaries v loop).1 ≠ .must := by
  unfold loopTurn
  split
  · split
    · exact nofun
    · exact h
  · exact nofun

theorem foldl_loopTurn_ne_must
    (loops : List NodeRef) (h : v.1 ≠ .must) : (loops.foldl (loopTurn summaries) v).1 ≠ .must := by
  induction loops generalizing v with
  | nil => exact h
  | cons loop loops ih => exact ih (loopTurn_ne_must loop h)

theorem loopVerdict_must {scope : BehaviorActionScope}
    {loops : List NodeRef} (h : (loopVerdict summaries scope loops v).1 = .must) :
    v.1 = .must := by
  unfold loopVerdict at h
  split at h
  · exact h
  split at h
  · exact h
  · refine absurd h (foldl_loopTurn_ne_must loops ?_)
    split
    · exact nofun
    · assumption

theorem bundleVerdict_must {completeness : Completeness}
    (h : (bundleVerdict completeness v).1 = .must) : v.1 = .must := by
  unfold bundleVerdict at h
  split at h
  · cases h
  · exact h

theorem boundaryVerdict_must {e : EffectCandidate}
    (h : (boundaryVerdict e v).1 = .must) : v.1 = .must := by
  simp only [boundaryVerdict] at h
  split at h
  · cases h
  split at h
  · cases h
  split at h
  · cases h
  · exact h

theorem transactionVerdict_must {analysis : Option EffectTransactionAnalysis}
    (h : (transactionVerdict analysis v).1 = .must) : v.1 = .must := by
  cases analysis with
  | none => exact h
  | some a =>
    simp only [transactionVerdict] at h
    split at h
    · cases h
    · cases h
    · exact h
    · cases h

theorem memberVerdict_must {ast : ProcedureAst}
    {relationship : EffectRelationship} {e : EffectCandidate}
    (h : (memberVerdict ast analyses summaries bundle relationship e).1 = .must) :
    relationship = .primary ∨ relationship = .requiredCoEffect := by
  have hbase : (baseVerdict relationship).1 = .must :=
    loopVerdict_must (bundleVerdict_must (boundaryVerdict_must (transactionVerdict_must h)))
  cases relationship with
  | primary => exact .inl rfl
  | requiredCoEffect => exact .inr rfl
  | conditionalCoEffect => cases hbase
  | auditEffect => cases hbase
  | rolledBackEffect => cases hbase

/-! ## Members of the bundles -/

theorem mem_buildBundles {nx : DominatorLibrary} {ast : ProcedureAst} {cfg : ControlFlowGraph}
    {regionRef : NodeRef}
    {effects : List EffectCandidate}
    (h : bundle ∈ buildBundles nx ast cfg regionRef analyses effects) :
    ∃ controlling first rest,
      bundle = bundleOf nx ast cfg regionRef analyses (solve ast cfg)
        (effects.filter EffectCandidate.isAdmitted) controlling first rest := by
  obtain ⟨controlling, -, hbundle⟩ := List.mem_filterMap.mp h
  split at hbundle
  · cases hbundle
  · exact ⟨controlling, _, _, (Option.some.inj hbundle).symm⟩

/-- An obligation is about a member of the bundle. With the modality `MUST` the member is the
primary effect, or its statement was found to be required. -/
theorem mem_bundleObligations {nx : DominatorLibrary} {ast : ProcedureAst} {cfg : ControlFlowGraph}
    {regionRef : NodeRef}
    {effects : List EffectCandidate}
    {o : EffectObligation}
    (hbundle : bundle ∈ buildBundles nx ast cfg regionRef analyses effects)
    (ho : o ∈ bundleObligations ast analyses summaries effects bundle) :
    ∃ primary e, bundle.primaryEffectRef = primary.effectId ∧ o.effectRef = e.effectId ∧
      o.relationship = relationshipOf nx cfg primary e ∧
      (o.modality = .must → o.relationship = .primary ∨ o.relationship = .requiredCoEffect) := by
  obtain ⟨controlling, first, rest, rfl⟩ := mem_buildBundles hbundle
  obtain ⟨member, hmember, ho⟩ := List.mem_filterMap.mp ho
  obtain ⟨e, he, rfl⟩ := Option.map_eq_some_iff.mp ho
  obtain ⟨e', -, rfl⟩ := List.mem_map.mp hmember
  have hid : e.effectId = e'.effectId := by simpa using List.find?_some he
  exact ⟨primaryOf ast first rest, e', rfl, hid, rfl, memberVerdict_must⟩

section Relationship

variable {nx : DominatorLibrary} {cfg : ControlFlowGraph} {primary e : EffectCandidate}

theorem required_of_relationship (h : relationshipOf nx cfg primary e = .primary ∨
      relationshipOf nx cfg primary e = .requiredCoEffect) :
    e.effectId = primary.effectId ∨
      isRequired nx cfg primary.sourceNodeRef e.sourceNodeRef = true := by
  unfold relationshipOf at h
  split at h
  · next heq => exact .inl heq
  split at h
  · simp at h
  split at h
  · simp at h
  split at h
  · next hrequired => exact .inr hrequired
  · simp at h

theorem relationship_ne_conditional (h : e.effectId = primary.effectId ∨
      isRequired nx cfg primary.sourceNodeRef e.sourceNodeRef = true) :
    relationshipOf nx cfg primary e ≠ .conditionalCoEffect := by
  unfold relationshipOf
  split
  · exact nofun
  split
  · exact nofun
  split
  · exact nofun
  split
  · exact nofun
  · next hid _ _ hrequired => exact absurd h (by simp [hid, hrequired])

end Relationship

end AtlasDb.Analysis
