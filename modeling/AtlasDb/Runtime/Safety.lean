import AtlasDb.Analysis.DynamicValues

/-!
# The safety assessment

`runtime/safety.py: RuntimeSafetyAssessor.assess`. A procedure may run in a sandbox when nothing its
effects and its dynamic statements show can end the unit of work of the executor.
-/

namespace AtlasDb.Runtime

open Core Parsing Analysis DynamicSql

inductive ParseOutcome where
  | parsesComplete
  | parsesPartial
  | refusesExpected
  | refusesUnexpected
deriving DecidableEq

structure ProcedureParseResult where
  outcome : ParseOutcome
  ast : Option ProcedureAst

inductive LiveVerificationEligibility where
  | db2SandboxAllowed
  | manualApprovalRequired
  | prohibited
deriving DecidableEq

inductive TransactionOwnership where
  | executorOwned
  | callerControlled
  | procedureControlled
  | mixed
  | unknown
deriving DecidableEq

inductive RollbackContainment where
  | rollbackSafe
  | callerRollbackPossible
  | notGuaranteed
  | unknown
deriving DecidableEq

inductive CommitOnReturn where
  | yes
  | no
  | unknown
deriving DecidableEq

inductive ExternalSideEffects where
  | absent
  | possible
deriving DecidableEq

structure RuntimeSafetyAssessment where
  internalCommitPresent : Bool
  explicitRollbackPresent : Bool
  commitOnReturn : CommitOnReturn
  unresolvedCallBoundaries : List EffectId
  unresolvedDynamicBoundaries : List String
  externalSideEffectsStatus : ExternalSideEffects
  transactionOwnership : TransactionOwnership
  rollbackContainment : RollbackContainment
  liveEligibility : LiveVerificationEligibility
  reasonCodes : List String
deriving DecidableEq

/-! ## What is looked at -/

def internalCommitRefs (effects : List EffectCandidate) : List NodeRef :=
  (effects.filter (·.effectId.kind = .commit)).map (·.effectId.nodeRef)

def rollbackRefs (effects : List EffectCandidate) : List NodeRef :=
  (effects.filter (·.effectId.kind = .rollback)).map (·.effectId.nodeRef)

def unresolvedCalls (effects : List EffectCandidate) : List EffectId :=
  (effects.filter fun value => value.effectId.kind = .call ∧
    value.observability = .unresolvedEffectBoundary).map (·.effectId)

/-- Some text of the site is not known before it runs. -/
def openStatus (status : DynamicSqlResolutionStatus) : Bool :=
  status ∈ [.partiallyReconstructed, .runtimeCaptureRequired, .unresolvedDynamicSql,
    .dynamicVariantBudgetExceeded]

def unresolvedDynamic (sites : List DynamicSqlSite) : List String :=
  (sites.filter fun value => openStatus value.resolutionStatus).map (·.siteId)

/-- What the procedure declares. -/
def declaredCommitOnReturn (ast : ProcedureAst) : CommitOnReturn :=
  match ast.commitOnReturn.map Text.upperString with
  | some "YES" => .yes
  | some "NO" => .no
  | _ => .unknown

/-! ## The assessment -/

/-- Who ends the unit of work. -/
def ownershipOf (effects : List EffectCandidate) (sites : List DynamicSqlSite)
    (commitOnReturn : CommitOnReturn) : TransactionOwnership :=
  if internalCommitRefs effects ≠ [] ∧ rollbackRefs effects ≠ [] then .mixed
  else if internalCommitRefs effects ≠ [] ∨ commitOnReturn = .yes then .procedureControlled
  else if commitOnReturn = .no ∧ unresolvedCalls effects = [] ∧ unresolvedDynamic sites = [] then
    .executorOwned
  else if commitOnReturn = .no then .callerControlled
  else .unknown

theorem ownershipOf_executor {effects : List EffectCandidate} {sites : List DynamicSqlSite}
    {commitOnReturn : CommitOnReturn} :
    ownershipOf effects sites commitOnReturn = .executorOwned ↔
      internalCommitRefs effects = [] ∧ commitOnReturn = .no ∧ unresolvedCalls effects = [] ∧
        unresolvedDynamic sites = [] := by
  unfold ownershipOf
  constructor
  · intro h
    split at h
    · cases h
    split at h
    · cases h
    next hcommits =>
    split at h
    · next hfree => exact ⟨not_not.mp fun h => hcommits (.inl h), hfree⟩
    split at h
    · cases h
    · cases h
  · rintro ⟨hcommits, rfl, hcalls, hdynamic⟩
    rw [if_neg fun h => h.1 hcommits, if_neg (by simp [hcommits]), if_pos ⟨rfl, hcalls, hdynamic⟩]

/-- `RuntimeSafetyAssessor.assess`. -/
def assess (parse : ProcedureParseResult) (effects : List EffectCandidate)
    (sites : List DynamicSqlSite) : Except String RuntimeSafetyAssessment :=
  match parse.ast with
  | none => .error "Runtime safety assessment requires a procedure AST."
  | some ast =>
    let commits := internalCommitRefs effects ≠ []
    let rollbacks := rollbackRefs effects ≠ []
    let calls := unresolvedCalls effects
    let dynamic := unresolvedDynamic sites
    let commitOnReturn := declaredCommitOnReturn ast
    let ownership := ownershipOf effects sites commitOnReturn
    .ok {
      internalCommitPresent := commits
      explicitRollbackPresent := rollbacks
      commitOnReturn := commitOnReturn
      unresolvedCallBoundaries := calls
      unresolvedDynamicBoundaries := dynamic
      externalSideEffectsStatus :=
        if calls ≠ [] ∨ dynamic ≠ [] then .possible else .absent
      transactionOwnership := ownership
      rollbackContainment :=
        if commits ∨ commitOnReturn = .yes then .notGuaranteed
        else if calls ≠ [] ∨ dynamic ≠ [] then .unknown
        else if ownership = .executorOwned then .rollbackSafe
        else .callerRollbackPossible
      liveEligibility :=
        if commits ∨ commitOnReturn = .yes then .prohibited
        else if parse.outcome ≠ .parsesComplete then .prohibited
        else if calls ≠ [] ∨ dynamic ≠ [] then .manualApprovalRequired
        else .db2SandboxAllowed
      reasonCodes :=
        -- The source sorts the codes.
        (if commitOnReturn = .yes then ["COMMIT_ON_RETURN_PRESENT"] else []) ++
        (if commits then ["INTERNAL_COMMIT_PRESENT"] else []) ++
        (if parse.outcome ≠ .parsesComplete then ["PARSER_RESULT_INCOMPLETE"] else []) ++
        (if calls ≠ [] then ["UNRESOLVED_CALL_BOUNDARY"] else []) ++
        (if dynamic ≠ [] then ["UNRESOLVED_DYNAMIC_SQL_BOUNDARY"] else []) }

/-- The executor may run the procedure and roll it back. -/
structure RuntimeSafetyAssessment.Allows (a : RuntimeSafetyAssessment) : Prop where
  liveEligibility : a.liveEligibility = .db2SandboxAllowed
  rollbackContainment : a.rollbackContainment = .rollbackSafe
  externalSideEffects : a.externalSideEffectsStatus = .absent

/-- Nothing that is looked at speaks against a run. -/
structure Clear (outcome : ParseOutcome) (ast : ProcedureAst) (effects : List EffectCandidate)
    (sites : List DynamicSqlSite) : Prop where
  outcome : outcome = .parsesComplete
  commitOnReturn : declaredCommitOnReturn ast = .no
  commits : internalCommitRefs effects = []
  calls : unresolvedCalls effects = []
  dynamic : unresolvedDynamic sites = []

/-- The assessment allows a run exactly when nothing speaks against it. -/
theorem assess_allows_iff {outcome : ParseOutcome} {ast : ProcedureAst}
    {effects : List EffectCandidate} {sites : List DynamicSqlSite} :
    (∃ a, assess ⟨outcome, some ast⟩ effects sites = .ok a ∧ a.Allows) ↔
      Clear outcome ast effects sites := by
  constructor
  · rintro ⟨a, ha, hallows⟩
    obtain rfl := Except.ok.inj ha
    obtain ⟨heligible, hcontained, -⟩ := hallows
    simp only at heligible hcontained
    split at heligible
    · cases heligible
    next hcommits =>
    split at heligible
    · cases heligible
    next houtcome =>
    split at heligible
    · cases heligible
    next hclosed =>
    rw [if_neg hcommits, if_neg hclosed] at hcontained
    split at hcontained
    · next howner =>
        obtain ⟨hnone, hreturn, hcalls, hdynamic⟩ := ownershipOf_executor.mp howner
        exact ⟨not_not.mp houtcome, hreturn, hnone, hcalls, hdynamic⟩
    · cases hcontained
  · rintro ⟨houtcome, hreturn, hcommits, hcalls, hdynamic⟩
    have howner : ownershipOf effects sites .no = .executorOwned :=
      ownershipOf_executor.mpr ⟨hcommits, rfl, hcalls, hdynamic⟩
    refine ⟨_, rfl, ?_, ?_, ?_⟩
    · simp [hcommits, hreturn, houtcome, hcalls, hdynamic]
    · simp [howner, hcommits, hreturn, hcalls, hdynamic]
    · simp [hcalls, hdynamic]

end AtlasDb.Runtime
