import AtlasDb.Analysis.Dataflow
import AtlasDb.Core.Regex
import Mathlib.Data.Char
import Mathlib.Data.List.Sort
import Mathlib.Data.List.Dedup
import Mathlib.Data.List.Lex

/-!
# Direct effects

`analysis/effects.py: DirectEffectAnalyzer.analyze`, by the effects it returns.
-/

namespace AtlasDb.Analysis

open Core Parsing

/-! ## Names in statement texts -/

section Names

open Regex

/-- `[A-Za-z_]` -/
def identStart : Regex := char fun c => c.isAlpha || c = '_'

/-- `[\w.\"]+`, as group 1. -/
def qualifiedName : Regex := group 1 (plus (char fun c => isWordChar c || c = '.' || c = '"'))

/-- `match.group(1).strip('"').upper()` -/
def nameOf (m : Regex.Match) : String :=
  String.ofList (Text.upper (Text.stripBy (· = '"') (m.group 1)))

/-- `_dml_target`. -/
def dmlTarget (text : String) : Option String :=
  let normalized := List.intercalate [' '] (Text.split text.toList)
  let heads :=
    [all [lit "UPDATE", plus space], all [lit "INSERT", plus space, lit "INTO", plus space],
    all [lit "DELETE", plus space, lit "FROM", plus space],
    all [lit "MERGE", plus space, lit "INTO", plus space]]
  heads.findSome? fun head =>
    (matchAt (seq head qualifiedName) ⟨none, normalized⟩).map nameOf

/-- `_call_target`. -/
def callTarget (text : String) : Option String :=
  (search (all [boundary, lit "CALL", plus space, qualifiedName]) text.toList).map nameOf

/-- The sequence of a `NEXT VALUE FOR` expression. -/
def sequenceName (expression : String) : Option String :=
  let rest := star (char fun c => c.isAlphanum || c = '_' || c = '.' || c = '$')
  (fullmatch (all [lit "NEXT", plus space, lit "VALUE", plus space, lit "FOR", plus space,
    group 1 (seq identStart rest)]) (Text.strip expression.toList)).map fun m =>
      String.ofList (Text.upper (m.group 1))

/-- The table of a `FINAL TABLE (INSERT INTO ...)`. -/
def finalTableTarget (text : String) : Option String :=
  let rest := star (char fun c => c.isAlphanum || c = '_' || c = '.' || c = '$' || c = '"')
  (search
    (all [boundary, lit "FINAL", plus space, lit "TABLE", star space, char (· = '('), star space,
    lit "INSERT", plus space, lit "INTO", plus space, group 1 (seq identStart rest)])
    text.toList).map nameOf

/-- The cursor of an `OPEN`. -/
def openedCursor (text : String) : Option String :=
  let rest := star (char fun c => c.isAlphanum || c = '_' || c = '$')
  (search (all [boundary, lit "OPEN", plus space, group 1 (seq identStart rest), boundary])
    text.toList).map fun m => String.ofList (Text.upper (m.group 1))

/-- The expression adds to or subtracts from the name. -/
def accumulates (name expression : String) : Bool :=
  (search (all [boundary, literal name.toList, boundary, star space,
    char fun c => c = '+' || c = '-']) expression.toList).isSome

end Names

/-! ## Effects -/

/-- `_effect`. -/
def makeEffect (kind : EffectKind) (ref : NodeRef) (target valueExpression : Option String)
    (observability : EffectObservability) (reachesExitRefs : List CfgRef) : EffectCandidate where
  effectId := ⟨kind, ref, target, valueExpression, observability⟩
  observability := observability
  reachesExitRefs := reachesExitRefs

/-- The names of the `OUT` and `INOUT` parameters. -/
def outNames (ast : ProcedureAst) : List String :=
  (ast.parameters.filter fun p => p.mode = .out ∨ p.mode = .inout).map fun p =>
    Text.upperString p.name

/-- The effect of a definition of an output parameter: it escapes when it reaches the normal
exit. -/
def outEffect (solution : SolverState) (site : DefinitionSite) : EffectCandidate :=
  let effect := makeEffect .outParameterAssignment site.sourceNodeRef (some site.symbolName)
    site.expressionText
  if site.sourceNodeRef ∈ definitionsAtCfg solution .normalExit site.symbolName then
    effect .escapingEffect [.normalExit]
  else if site.sourceNodeRef ∈ definitionsAtCfg solution .exceptionalExit site.symbolName then
    effect .intermediateEffect [.exceptionalExit]
  else effect .overwrittenOutputAssignment []

def outEffects (ast : ProcedureAst) (cfg : ControlFlowGraph) : List EffectCandidate :=
  ((allDefinitionSites ast cfg).filter fun site => site.symbolName ∈ outNames ast).map
    (outEffect (solve ast cfg))

/-- Accumulators of loops and sequence values. -/
def assignmentEffects (ast : ProcedureAst) (ref : NodeRef) (stmt : Statement) :
    List EffectCandidate :=
  match stmt.assignment with
  | none => []
  | some binding =>
    (if Text.upperString binding.targetName ∉ outNames ast ∧ ref ∈ loopRefsOf ast.body ∧
        accumulates binding.targetName binding.expressionText then
      [makeEffect .stateAssignment ref (some (Text.upperString binding.targetName))
        (some binding.expressionText) .intermediateEffect []]
     else []) ++
    (match sequenceName binding.expressionText with
     | some name => [makeEffect .sequenceValueAcquisition ref (some name)
         (some binding.expressionText) .unresolvedEffectBoundary []]
     | none => [])

def isDmlVariant (v : DynamicSqlVariant) : Bool :=
  v.statementKind = .insert || v.statementKind = .update || v.statementKind = .delete ||
    v.statementKind = .merge

/-- `",".join(sorted(set(targets))) or None` -/
def joinTargets (targets : List String) : Option String :=
  match (targets.dedup).insertionSort (fun a b => a.toList ≤ b.toList) with
  | [] => none
  | sorted => some (",".intercalate sorted)

/-- The effect of an `EXECUTE` or `EXECUTE IMMEDIATE`. -/
def dynamicEffects (sites : List DynamicSqlSite) (variants : List DynamicSqlVariant) (ref : NodeRef)
    (stmt : Statement) : List EffectCandidate :=
  match sites.reverse.find? (·.executeNodeRef = ref) with
  | none => [makeEffect .dynamicSql ref none (some stmt.text) .unresolvedEffectBoundary []]
  | some site =>
    let known := site.variantRefs.filter (· ∈ variants)
    let dml := known.filter isDmlVariant
    let calls := known.filter (·.statementKind = .call)
    if dml ≠ [] then
      [makeEffect .dynamicSql ref (joinTargets (dml.filterMap fun v => dmlTarget v.templateText))
        (some site.siteId) .transactionSurvivalUnresolved []]
    else if calls ≠ [] then
      [makeEffect .dynamicSql ref (joinTargets (calls.filterMap (·.callTarget)))
        (some site.siteId) .unresolvedEffectBoundary []]
    else if site.resolutionStatus = .runtimeCaptureRequired ∨
        site.resolutionStatus = .unresolvedDynamicSql ∨
        site.resolutionStatus = .dynamicVariantBudgetExceeded then
      [makeEffect .dynamicSql ref none (some site.siteId) .unresolvedEffectBoundary []]
    else []

/-- One turn of the loop over the statements. -/
def statementEffects (ast : ProcedureAst) (sites : List DynamicSqlSite)
    (variants : List DynamicSqlVariant) (ref : NodeRef) (stmt : Statement) : List EffectCandidate :=
  assignmentEffects ast ref stmt ++
  match stmt.kind with
  | .selectInto =>
    match finalTableTarget stmt.text with
    | some target =>
      [makeEffect .dml ref (some target) (some "FINAL_TABLE_INSERT_WITH_RETURNED_ROW")
        .transactionSurvivalUnresolved []]
    | none => []
  | .openCursor =>
    match ast.returnedCursors.reverse.find? fun c => some c.cursorName = openedCursor stmt.text with
    | some cursor => [makeEffect .resultSetReturn ref (some cursor.cursorName)
        (some ("WITH RETURN " ++ cursor.returnScope)) .escapingEffect [.normalExit]]
    | none => []
  | .dml => [makeEffect .dml ref (dmlTarget stmt.text) none .transactionSurvivalUnresolved []]
  | .call => [makeEffect .call ref (callTarget stmt.text) none .unresolvedEffectBoundary []]
  | .execute => dynamicEffects sites variants ref stmt
  | .executeImmediate => dynamicEffects sites variants ref stmt
  | .commit => [makeEffect .commit ref none none .committedEffect []]
  | .rollback => [makeEffect .rollback ref none none .rolledBackEffect []]
  | .resignal => [makeEffect .resignal ref none (some stmt.text) .unhandledEscapingCondition
      [.exceptionalExit]]
  | .signal => [makeEffect .signal ref none (some stmt.text) .unhandledEscapingCondition
      [.exceptionalExit]]
  | _ => []

/-- `DirectEffectAnalyzer.analyze`. -/
def directEffects (ast : ProcedureAst) (cfg : ControlFlowGraph) (sites : List DynamicSqlSite)
    (variants : List DynamicSqlVariant) : List EffectCandidate :=
  outEffects ast cfg ++
    (statementsOf ast.body).flatMap fun s => statementEffects ast sites variants s.1 s.2

/-! ## The statements effects come from -/

section Kinds

variable {ast : ProcedureAst} {sites : List DynamicSqlSite} {variants : List DynamicSqlVariant}
  {ref : NodeRef} {stmt : Statement} {e : EffectCandidate}

theorem assignmentEffects_kind (h : e ∈ assignmentEffects ast ref stmt) :
    e.effectId.nodeRef = ref ∧
      (e.effectId.kind = .stateAssignment ∨ e.effectId.kind = .sequenceValueAcquisition) := by
  unfold assignmentEffects at h
  split at h
  · cases h
  · rcases List.mem_append.mp h with h | h
    · split at h
      · obtain rfl := List.mem_singleton.mp h
        exact ⟨rfl, .inl rfl⟩
      · cases h
    · split at h
      · obtain rfl := List.mem_singleton.mp h
        exact ⟨rfl, .inr rfl⟩
      · cases h

theorem dynamicEffects_kind (h : e ∈ dynamicEffects sites variants ref stmt) :
    e.effectId.nodeRef = ref ∧ e.effectId.kind = .dynamicSql := by
  unfold dynamicEffects at h
  split at h
  · obtain rfl := List.mem_singleton.mp h
    exact ⟨rfl, rfl⟩
  · simp only at h
    split at h
    · obtain rfl := List.mem_singleton.mp h
      exact ⟨rfl, rfl⟩
    split at h
    · obtain rfl := List.mem_singleton.mp h
      exact ⟨rfl, rfl⟩
    split at h
    · obtain rfl := List.mem_singleton.mp h
      exact ⟨rfl, rfl⟩
    · cases h

/-- The kinds of effects a statement of this kind has, apart from those of an assignment. -/
def effectKinds : StatementKind → List EffectKind
  | .selectInto => [.dml]
  | .openCursor => [.resultSetReturn]
  | .dml => [.dml]
  | .call => [.call]
  | .execute => [.dynamicSql]
  | .executeImmediate => [.dynamicSql]
  | .commit => [.commit]
  | .rollback => [.rollback]
  | .resignal => [.resignal]
  | .signal => [.signal]
  | _ => []

/-- What a statement's effects are, by its kind. -/
theorem statementEffects_kind (h : e ∈ statementEffects ast sites variants ref stmt) :
    e.effectId.nodeRef = ref ∧ (e.effectId.kind = .stateAssignment ∨
      e.effectId.kind = .sequenceValueAcquisition ∨ e.effectId.kind ∈ effectKinds stmt.kind) := by
  rcases List.mem_append.mp h with h | h
  · obtain ⟨href, hkind⟩ := assignmentEffects_kind h
    exact ⟨href, hkind.imp_right .inl⟩
  -- An effect that is made for its kind alone.
  have made (kind : EffectKind) {effect : EffectCandidate} (heffect : effect.effectId.kind = kind)
      (href : effect.effectId.nodeRef = ref) (hkinds : kind ∈ effectKinds stmt.kind)
      (h : e ∈ [effect]) :
      e.effectId.nodeRef = ref ∧ (e.effectId.kind = .stateAssignment ∨
        e.effectId.kind = .sequenceValueAcquisition ∨ e.effectId.kind ∈ effectKinds stmt.kind) := by
    obtain rfl := List.mem_singleton.mp h
    rw [heffect]
    exact ⟨href, .inr (.inr hkinds)⟩
  have dynamic (hkinds : .dynamicSql ∈ effectKinds stmt.kind)
      (h : e ∈ dynamicEffects sites variants ref stmt) :
      e.effectId.nodeRef = ref ∧ (e.effectId.kind = .stateAssignment ∨
        e.effectId.kind = .sequenceValueAcquisition ∨ e.effectId.kind ∈ effectKinds stmt.kind) := by
    obtain ⟨href, hkind⟩ := dynamicEffects_kind h
    rw [hkind]
    exact ⟨href, .inr (.inr hkinds)⟩
  split at h
  · next hstmt =>
      split at h
      · exact made .dml rfl rfl (by rw [hstmt]; decide) h
      · cases h
  · next hstmt =>
      split at h
      · exact made .resultSetReturn rfl rfl (by rw [hstmt]; decide) h
      · cases h
  · next hstmt => exact made .dml rfl rfl (by rw [hstmt]; decide) h
  · next hstmt => exact made .call rfl rfl (by rw [hstmt]; decide) h
  · next hstmt => exact dynamic (by rw [hstmt]; decide) h
  · next hstmt => exact dynamic (by rw [hstmt]; decide) h
  · next hstmt => exact made .commit rfl rfl (by rw [hstmt]; decide) h
  · next hstmt => exact made .rollback rfl rfl (by rw [hstmt]; decide) h
  · next hstmt => exact made .resignal rfl rfl (by rw [hstmt]; decide) h
  · next hstmt => exact made .signal rfl rfl (by rw [hstmt]; decide) h
  · cases h

theorem statementEffects_signal (h : e ∈ statementEffects ast sites variants ref stmt)
    (hkind : e.effectId.kind = .signal ∨ e.effectId.kind = .resignal) :
    e.effectId.nodeRef = ref ∧ (stmt.kind = .signal ∨ stmt.kind = .resignal) := by
  obtain ⟨href, heffect | heffect | heffect⟩ := statementEffects_kind h
  · simp [heffect] at hkind
  · simp [heffect] at hkind
  · refine ⟨href, ?_⟩
    rcases hkind with hkind | hkind
    · rw [hkind] at heffect
      cases hstmt : stmt.kind <;> simp [hstmt, effectKinds] at heffect ⊢
    · rw [hkind] at heffect
      cases hstmt : stmt.kind <;> simp [hstmt, effectKinds] at heffect ⊢

theorem outEffect_kind (solution : SolverState) (site : DefinitionSite) :
    (outEffect solution site).effectId.kind = .outParameterAssignment := by
  unfold outEffect
  simp only
  split
  · rfl
  split
  · rfl
  · rfl

theorem directEffects_signal {cfg : ControlFlowGraph} (h : e ∈ directEffects ast cfg sites variants)
    (hkind : e.effectId.kind = .signal ∨ e.effectId.kind = .resignal) :
    ∃ stmt, (e.effectId.nodeRef, stmt) ∈ statementsOf ast.body ∧
      (stmt.kind = .signal ∨ stmt.kind = .resignal) := by
  rcases List.mem_append.mp h with h | h
  · obtain ⟨site, -, rfl⟩ := List.mem_map.mp h
    rw [outEffect_kind] at hkind
    simp at hkind
  · obtain ⟨⟨ref, stmt⟩, hmem, h⟩ := List.mem_flatMap.mp h
    obtain ⟨href, hstmt⟩ := statementEffects_signal h hkind
    rw [href]
    exact ⟨stmt, hmem, hstmt⟩

end Kinds

end AtlasDb.Analysis
