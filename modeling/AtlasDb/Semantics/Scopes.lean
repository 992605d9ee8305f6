import AtlasDb.Analysis.ReachingPaths
import AtlasDb.Analysis.SymbolUsage

/-!
# Definitions and scopes

A name means the variable of the innermost declaration around it, or the parameter
(`analysis/symbol_resolution.py`). Reaching definitions and the effects on output parameters go by
the name alone, so they are right about a procedure exactly when no two variables of one name meet
on a path (`scopes_respected_iff`).
-/

namespace AtlasDb.Semantics

open Core Lib Parsing Analysis

/-! ## Scopes -/

/-- `lexical_scope_ref`: `"procedure-body"`, or a compound or handler. -/
inductive LexicalScope where
  | procedureBody
  | region (ref : NodeRef)
deriving DecidableEq

/-- A scope with the names `_declarations` lists for it. -/
structure ScopeFrame where
  scope : LexicalScope
  declared : List String

/-- The name of a `LOCAL_VARIABLE` among the `declared_symbol_types`. -/
def declaredLocal (ref : NodeRef) (stmt : Statement) : List String :=
  (SymbolUsage.declaredSymbolType { nodeId := ref, statement := some stmt }).toList.map fun d =>
    Text.upperString d.symbolName

mutual

/-- The names declared in the scope a node stands in. IF arms and loops open no scope. -/
def scopeDeclarations : Node → List String
  | .simple id stmt => declaredLocal id stmt
  | .compound _ _ _ _ => []
  | .ifRegion _ arms => scopeDeclarationsOfArms arms
  | .loop _ _ body => scopeDeclarationsOf body
  | .handler _ _ _ => []

def scopeDeclarationsOf : List Node → List String
  | [] => []
  | n :: ns => scopeDeclarations n ++ scopeDeclarationsOf ns

def scopeDeclarationsOfArms : List Arm → List String
  | [] => []
  | .mk _ body :: arms => scopeDeclarationsOf body ++ scopeDeclarationsOfArms arms

end

mutual

/-- The nodes of a subtree with the scopes around them, the innermost first: those that
`_is_visible` goes through by `_scope_parent`. -/
def nodeScopes (scopes : List ScopeFrame) : Node → List (NodeRef × List ScopeFrame)
  | .simple id _ => [(id, scopes)]
  | .compound id _ _ body =>
    (id, scopes) :: scopesOf (⟨.region id, scopeDeclarationsOf body⟩ :: scopes) body
  | .ifRegion id arms => (id, scopes) :: scopesOfArms scopes arms
  | .loop id _ body => (id, scopes) :: scopesOf scopes body
  | .handler id _ body =>
    (id, scopes) :: scopesOf (⟨.region id, scopeDeclarationsOf body⟩ :: scopes) body

def scopesOf (scopes : List ScopeFrame) : List Node → List (NodeRef × List ScopeFrame)
  | [] => []
  | n :: ns => nodeScopes scopes n ++ scopesOf scopes ns

def scopesOfArms (scopes : List ScopeFrame) : List Arm → List (NodeRef × List ScopeFrame)
  | [] => []
  | .mk header body :: arms =>
    (header.armId, scopes) :: (scopesOf scopes body ++ scopesOfArms scopes arms)

end

/-- The scopes around a node. -/
def scopesAt (ast : ProcedureAst) (ref : NodeRef) : List ScopeFrame :=
  ((scopesOf [⟨.procedureBody, scopeDeclarationsOf ast.body⟩] ast.body).lookup ref).getD []

/-- `_is_visible`. -/
def isVisible (ast : ProcedureAst) (ref : NodeRef) (symbol : String) : Bool :=
  (Slicing.parameterNames ast).contains symbol ||
    (scopesAt ast ref).any fun f => f.declared.contains symbol

/-- What a name may mean. -/
inductive ScopedVariable where
  | parameter (name : String)
  | localVariable (scope : LexicalScope) (name : String)
deriving DecidableEq

/-- The variable a name means at a node, by the innermost declaration around it. -/
def resolve (ast : ProcedureAst) (ref : NodeRef) (symbol : String) : Option ScopedVariable :=
  match (scopesAt ast ref).find? fun f => symbol ∈ f.declared with
  | some f => some (.localVariable f.scope symbol)
  | none => if symbol ∈ Slicing.parameterNames ast then some (.parameter symbol) else none

theorem resolve_eq_parameter {ast : ProcedureAst} {ref : NodeRef} {symbol : String}
    (h : symbol ∈ Slicing.parameterNames ast) :
    resolve ast ref symbol = some (.parameter symbol) ↔
      ∀ f ∈ scopesAt ast ref, symbol ∉ f.declared := by
  unfold resolve
  cases hfind : (scopesAt ast ref).find? fun f => symbol ∈ f.declared with
  | some f =>
    have hmem := List.mem_of_find?_eq_some hfind
    have hdeclared : symbol ∈ f.declared := by simpa using List.find?_some hfind
    simp only [Option.some.injEq, reduceCtorEq, false_iff]
    exact fun hnone => hnone f hmem hdeclared
  | none =>
    have hnone : ∀ f ∈ scopesAt ast ref, symbol ∉ f.declared := by simpa using hfind
    simpa [h] using hnone

/-! ## What respects scopes -/

section

variable (ast : ProcedureAst) (cfg : ControlFlowGraph) (sites : List DynamicSqlSite)
  (variants : List DynamicSqlVariant) (uses : List (NodeRef × String))

/-- An effect on an output parameter is reported for the write. -/
def ReportedAsOutput (site : DefinitionSite) : Prop :=
  ∃ e ∈ directEffects ast cfg sites variants, e.effectKind = .outParameterAssignment ∧
    e.sourceNodeRef = site.sourceNodeRef ∧ e.target = some site.symbolName

/-- Writes are reported as effects on output parameters just when they write one, and a definition
is neither killed by a write to another variable of its name nor reported as reaching a use of
one. -/
structure RespectsScopes : Prop where
  outputs : ∀ site ∈ allDefinitionSites ast cfg,
    ReportedAsOutput ast cfg sites variants site ↔
      site.symbolName ∈ outNames ast ∧
        resolve ast site.sourceNodeRef site.symbolName = some (.parameter site.symbolName)
  uses : ∀ use ∈ uses, ∀ ref ∈ definitionsAtCfg (solve ast cfg) (.ast use.1) use.2,
    resolve ast ref (Text.upperString use.2) = resolve ast use.1 (Text.upperString use.2)
  kills : ∀ e ∈ cfg.edges, ∀ symbol ref other, e.source = .ast other →
    (symbol, ref) ∈ reaching ast cfg e.source →
    (symbol, ref) ∉ transferForEdge ast cfg (reaching ast cfg e.source) e →
    resolve ast ref symbol = resolve ast other symbol

/-- No write under the name of an output parameter stands in a scope that declares the name, and no
path without another write of the name leads from a write to a use of another variable of the name,
or to a write of one. -/
structure HomonymsApart : Prop where
  outputs : ∀ site ∈ allDefinitionSites ast cfg, site.symbolName ∈ outNames ast →
    ∀ f ∈ scopesAt ast site.sourceNodeRef, site.symbolName ∉ f.declared
  uses : ∀ use ∈ uses, ∀ ref,
    DefinitionArrives ast cfg (Text.upperString use.2) ref (.ast use.1) →
    resolve ast ref (Text.upperString use.2) = resolve ast use.1 (Text.upperString use.2)
  writes : ∀ e ∈ cfg.edges, ∀ symbol ref other,
    DefinitionArrives ast cfg symbol ref e.source → TakesEffect ast cfg e symbol other →
    resolve ast ref symbol = resolve ast other symbol

end

section

variable {ast : ProcedureAst} {cfg : ControlFlowGraph} {sites : List DynamicSqlSite}
  {variants : List DynamicSqlVariant} {uses : List (NodeRef × String)}

/-- No statement's effect is an output parameter's. -/
theorem statementEffects_not_output {ref : NodeRef} {stmt : Statement} {e : EffectCandidate}
    (h : e ∈ statementEffects ast sites variants ref stmt) :
    e.effectKind ≠ .outParameterAssignment := by
  intro hkind
  change e.effectId.kind = _ at hkind
  rcases List.mem_append.1 h with h | h
  · rcases (assignmentEffects_kind h).2 with h | h
    · simp [h] at hkind
    · simp [h] at hkind
  · split at h
    · split at h
      · obtain rfl := List.mem_singleton.1 h
        simp [makeEffect] at hkind
      · cases h
    · split at h
      · obtain rfl := List.mem_singleton.1 h
        simp [makeEffect] at hkind
      · cases h
    · obtain rfl := List.mem_singleton.1 h
      simp [makeEffect] at hkind
    · obtain rfl := List.mem_singleton.1 h
      simp [makeEffect] at hkind
    · simp [(dynamicEffects_kind h).2] at hkind
    · simp [(dynamicEffects_kind h).2] at hkind
    · obtain rfl := List.mem_singleton.1 h
      simp [makeEffect] at hkind
    · obtain rfl := List.mem_singleton.1 h
      simp [makeEffect] at hkind
    · obtain rfl := List.mem_singleton.1 h
      simp [makeEffect] at hkind
    · obtain rfl := List.mem_singleton.1 h
      simp [makeEffect] at hkind
    · cases h

theorem outEffect_id (solution : SolverState) (site : DefinitionSite) :
    (outEffect solution site).sourceNodeRef = site.sourceNodeRef ∧
      (outEffect solution site).target = some site.symbolName := by
  unfold outEffect
  dsimp only
  split
  · exact ⟨rfl, rfl⟩
  · split
    · exact ⟨rfl, rfl⟩
    · exact ⟨rfl, rfl⟩

/-- A write is reported exactly when its name is that of an output parameter. -/
theorem reportedAsOutput_iff {site : DefinitionSite} (hsite : site ∈ allDefinitionSites ast cfg) :
    ReportedAsOutput ast cfg sites variants site ↔ site.symbolName ∈ outNames ast := by
  constructor
  · rintro ⟨e, he, hkind, -, htarget⟩
    rcases List.mem_append.1 he with he | he
    · obtain ⟨other, hother, rfl⟩ := List.mem_map.1 he
      rw [(outEffect_id _ other).2] at htarget
      rw [← Option.some.inj htarget]
      exact of_decide_eq_true (List.mem_filter.1 hother).2
    · obtain ⟨s, -, he⟩ := List.mem_flatMap.1 he
      exact absurd hkind (statementEffects_not_output he)
  · intro hout
    refine ⟨outEffect (solve ast cfg) site, List.mem_append_left _ ?_, outEffect_kind _ site,
      outEffect_id _ site⟩
    exact List.mem_map.2 ⟨site, List.mem_filter.2 ⟨hsite, decide_eq_true hout⟩, rfl⟩

theorem outNames_subset {symbol : String} (h : symbol ∈ outNames ast) :
    symbol ∈ Slicing.parameterNames ast := by
  obtain ⟨parameter, hmem, rfl⟩ := List.mem_map.1 h
  exact List.mem_map.2 ⟨parameter, (List.mem_filter.1 hmem).1, rfl⟩

/-- Scopes are respected exactly when variables of one name are kept apart. -/
theorem scopes_respected_iff (ast : ProcedureAst) (cfg : ControlFlowGraph)
    (sites : List DynamicSqlSite) (variants : List DynamicSqlVariant)
    (uses : List (NodeRef × String)) :
    RespectsScopes ast cfg sites variants uses ↔ HomonymsApart ast cfg uses := by
  constructor
  · intro h
    refine ⟨fun site hsite hout => ?_, fun use huse ref harrives => ?_,
      fun e he symbol ref other harrives hwrite => ?_⟩
    · have hresolve := ((h.outputs site hsite).1 ((reportedAsOutput_iff hsite).2 hout)).2
      exact (resolve_eq_parameter (outNames_subset hout)).1 hresolve
    · exact h.uses use huse ref (mem_definitionsAtCfg.2 (mem_reaching_iff.2 harrives))
    · have hsource : e.source = .ast other := by
        obtain ⟨d, hd, -, hdref⟩ := hwrite
        rw [← hdref]
        exact edgeSites_source hd
      by_cases href : ref = other
      · rw [href]
      · refine h.kills e he symbol ref other hsource (mem_reaching_iff.2 harrives) ?_
        rw [mem_transferForEdge]
        rintro (hself | ⟨-, hnone⟩)
        · obtain ⟨d', hd', -, hdref'⟩ := hself
          have hsource' := edgeSites_source hd'
          rw [hdref', hsource] at hsource'
          exact href (CfgRef.ast.inj hsource').symm
        · exact hnone other hwrite
  · intro h
    refine ⟨fun site hsite => ?_, fun use huse ref href => ?_,
      fun e he symbol ref other hsource hin hout => ?_⟩
    · rw [reportedAsOutput_iff hsite]
      refine ⟨fun hout => ⟨hout, ?_⟩, fun hout => hout.1⟩
      exact (resolve_eq_parameter (outNames_subset hout)).2 (h.outputs site hsite hout)
    · exact h.uses use huse ref (mem_reaching_iff.1 (mem_definitionsAtCfg.1 href))
    · rw [mem_transferForEdge] at hout
      obtain ⟨writer, hwrite⟩ : ∃ writer, TakesEffect ast cfg e symbol writer := by
        by_contra hnone
        push Not at hnone
        exact hout (.inr ⟨hin, hnone⟩)
      have hwriter : writer = other := by
        obtain ⟨d, hd, -, hdref⟩ := hwrite
        have hsource' := edgeSites_source hd
        rw [hdref, hsource] at hsource'
        exact (CfgRef.ast.inj hsource').symm
      rw [← hwriter]
      exact h.writes e he symbol ref writer (mem_reaching_iff.1 hin) hwrite

end

/-- `DECLARE P_X INT; SET P_X = 1;` in a compound, in a procedure with the parameter `OUT P_X`. -/
def shadowedOutput : ProcedureAst where
  nodeId := "procedure"
  parameters := [⟨"P_X", .out⟩]
  commitOnReturn := none
  body := [.compound "block" none "" [
    .simple "declare" { kind := .declareVariable, text := "DECLARE P_X INT;" },
    .simple "set" { kind := .set, text := "SET P_X = 1;", assignment := some ⟨"P_X", "1"⟩ }]]
  distinct := by decide

/-- The write of the local variable is reported as an effect on the parameter. -/
theorem shadowed_output_is_reported :
    ¬ ∀ ast sites variants uses, RespectsScopes ast (.build ast) sites variants uses := by
  intro h
  have hsite : (⟨"P_X", "set", some "1", .assignment⟩ : DefinitionSite) ∈
      allDefinitionSites shadowedOutput (.build shadowedOutput) := by decide +kernel
  have hout : "P_X" ∈ outNames shadowedOutput := by decide +kernel
  have hresolve := (((h shadowedOutput [] [] []).outputs _ hsite).1
    ((reportedAsOutput_iff hsite).2 hout)).2
  revert hresolve
  decide +kernel

end AtlasDb.Semantics
