import AtlasDb.Analysis.DynamicSql
import AtlasDb.Analysis.HandlerFlow
import AtlasDb.Analysis.ReachingPaths
import AtlasDb.Semantics.Observability
import AtlasDb.Semantics.Slices

/-!
# Three analyses of reaching definitions

The effects, the slices and the texts of dynamic statements each rest on a solver of their own. The
first takes assignments and `INTO` targets for definitions and lets the latter take effect only
where the statement succeeds, the second takes the same definitions and lets them take effect
everywhere, and the third takes assignments only. They agree on a procedure exactly when no
statement with `INTO` targets is followed by another node (`definitions_agree_iff`).
-/

namespace AtlasDb.Semantics

open Core Lib Parsing Analysis Slicing DynamicSql

/-! ## Procedures as the parser leaves them -/

/-- The targets of a `SELECT INTO`, a `FETCH` or an `EXECUTE INTO`. -/
def intoTargets (stmt : Statement) : List String :=
  stmt.fetch.toList.flatMap FetchBinding.targetNames ++ stmt.selectIntoTargets.getD [] ++
    stmt.execute.toList.flatMap DynamicExecuteBinding.intoTargetNames

/-- A procedure with the facts of its table: every statement is what the parser makes of its tokens,
and the `DEF` facts are those of the statements. -/
structure ParsedProcedure where
  ast : ProcedureAst
  facts : List StateAccessFact
  parsed : ∀ s ∈ statementsOf ast.body, ∃ source tokens, s.2 = parseSimple source tokens
  defined : ∀ ref symbol, symbol ∈ defsByNode facts ref ↔
    ∃ stmt, (ref, stmt) ∈ statementsOf ast.body ∧ symbol ∈ definedSymbols stmt

/-- Its control flow graph. -/
abbrev ParsedProcedure.graph (p : ParsedProcedure) : ControlFlowGraph := .build p.ast

/-- The node is a statement that is executed. -/
def Executable (ast : ProcedureAst) (ref : NodeRef) : Prop :=
  ∃ stmt, (ref, stmt) ∈ statementsOf ast.body ∧ (Node.simple ref stmt).isDeclaration = false

section

variable (p : ParsedProcedure)

/-- `ReachingDefinitionAnalysis.definitions_before_ast`. -/
def definitionsBeforeAst (node : NodeRef) (symbol : String) : List NodeRef :=
  definitionsAtCfg (solve p.ast p.graph) (.ast node) symbol

/-- `LocalBackwardSlicer._definitions_reaching`. -/
def slicerDefinitions (node : NodeRef) (symbol : String) : List NodeRef :=
  definitionsReaching p.graph (reachingDefinitions p.ast p.facts p.graph).solveFlow.incoming node
    symbol

/-- The `variable_defs` of `DynamicSqlAnalyzer`. -/
def dynamicSqlDefinitions (node : NodeRef) (symbol : String) : Finset NodeRef :=
  variableDefs p.graph (dynamicDefinitions p.ast p.graph).solveFlow.incoming node symbol

/-- At every node of the graph the three hold the same executable statements. A variable is named in
upper case. -/
def DefinitionsAgree : Prop :=
  ∀ node, .ast node ∈ p.graph.nodes → ∀ symbol, Text.upperString symbol = symbol →
    ∀ ref, Executable p.ast ref →
      (ref ∈ definitionsBeforeAst p node symbol ↔ ref ∈ slicerDefinitions p node symbol) ∧
        (ref ∈ definitionsBeforeAst p node symbol ↔ ref ∈ dynamicSqlDefinitions p node symbol)

/-- No statement with `INTO` targets to which a path leads has an edge to another node of the
procedure. -/
def IntoEndsPaths : Prop :=
  ∀ e ∈ cfgEdges p.ast, (∃ es, EdgePath (cfgEdges p.ast) .entry es e.source) →
    ∀ ref next stmt, e.source = .ast ref → e.target = .ast next →
      (ref, stmt) ∈ statementsOf p.ast.body → intoTargets stmt = []

end

/-! ## What the parser binds -/

variable {name : String}

theorem upper_identifierNames {tokens : List Token}
    (h : name ∈ identifierNames tokens) : Text.upperString name = name := by
  obtain ⟨t, -, rfl⟩ := List.mem_map.1 h
  exact upperString_name t

theorem upper_selectIntoTargets {tokens : List Token} {names : List String}
    (h : selectIntoTargets tokens = some names) (hname : name ∈ names) :
    Text.upperString name = name := by
  unfold selectIntoTargets at h
  split at h
  · split at h
    · cases h
    · dsimp only at h
      split at h
      · cases h
      · obtain rfl := Option.some.inj h
        obtain ⟨t, -, rfl⟩ := List.mem_map.1 hname
        exact upperString_name t
  · cases h

theorem upper_fetchBinding {tokens : List Token} {f : FetchBinding}
    (h : fetchBinding tokens = some f) (hname : name ∈ f.targetNames) :
    Text.upperString name = name := by
  unfold fetchBinding at h
  split at h
  · cases h
  · split at h
    · cases h
    · split at h
      · cases h
      · dsimp only at h
        split at h
        · cases h
        · obtain ⟨t, -, rfl⟩ := Option.map_eq_some_iff.1 h
          exact upper_identifierNames hname

variable {source : String}

theorem upper_executeBinding {tokens : List Token} {e : DynamicExecuteBinding}
    (h : executeBinding source tokens = some e) (hname : name ∈ e.intoTargetNames) :
    Text.upperString name = name := by
  unfold executeBinding at h
  split at h
  · cases h
  · dsimp only at h
    split at h
    · obtain rfl := Option.some.inj h
      cases hname
    · obtain ⟨t, -, rfl⟩ := Option.map_eq_some_iff.1 h
      have hname : name ∈ executeTargets (trimSemicolon tokens) := hname
      unfold executeTargets at hname
      split at hname
      · cases hname
      · exact upper_identifierNames hname

theorem upper_assignmentBinding {tokens : List Token} {a : AssignmentBinding}
    (h : assignmentBinding source tokens = some a) :
    Text.upperString a.targetName = a.targetName := by
  unfold assignmentBinding at h
  split at h
  · cases h
  · split at h
    · cases h
    · obtain ⟨t, -, rfl⟩ := Option.map_eq_some_iff.1 h
      exact upperString_name t

theorem upper_definedSymbols {tokens : List Token}
    (h : name ∈ definedSymbols (parseSimple source tokens)) : Text.upperString name = name := by
  simp only [definedSymbols, parseSimple, List.mem_append, List.mem_map, List.mem_flatMap,
    Option.mem_toList] at h
  rcases h with ((⟨a, ha, rfl⟩ | ⟨f, hf, hname⟩) | hname) | ⟨e, he, hname⟩
  · split at ha
    · exact upper_assignmentBinding ha
    · cases ha
  · split at hf
    · exact upper_fetchBinding hf hname
    · cases hf
  · split at hname
    · cases htargets : selectIntoTargets tokens with
      | none => simp [htargets] at hname
      | some names => exact upper_selectIntoTargets htargets (by simpa [htargets] using hname)
    · cases hname
  · split at he
    · exact upper_executeBinding he hname
    · cases he

theorem assignment_only {tokens : List Token} {a : AssignmentBinding}
    (h : (parseSimple source tokens).assignment = some a) :
    intoTargets (parseSimple source tokens) = [] ∧
      bindingCanFail (parseSimple source tokens).kind = false := by
  simp only [parseSimple] at h
  split at h
  · next hset => simp [intoTargets, parseSimple, hset, simpleKind, kindOfFirst, bindingCanFail]
  · cases h

theorem simpleKind_declaration {first : String} {tokens : List Token} (hfirst : first ≠ "DECLARE") :
    simpleKind first tokens ≠ .declareVariable ∧ simpleKind first tokens ≠ .declareCursor ∧
      simpleKind first tokens ≠ .declareCondition := by
  unfold simpleKind
  split
  · next kind hkind =>
      unfold kindOfFirst at hkind
      split at hkind
      all_goals cases hkind <;> decide
  · rw [if_neg hfirst]
    split
    · decide
    · split
      · split <;> decide
      · split
        · split <;> decide
        · decide

theorem into_not_declaration {tokens : List Token} {ref : NodeRef}
    (h : intoTargets (parseSimple source tokens) ≠ []) :
    (Node.simple ref (parseSimple source tokens)).isDeclaration = false := by
  have hfirst : (effectiveFirst tokens).getD "" ≠ "DECLARE" := by
    intro hdeclare
    exact h (by simp [intoTargets, parseSimple, hdeclare])
  obtain ⟨hvariable, hcursor, hcondition⟩ := @simpleKind_declaration _ tokens hfirst
  rw [Node.isDeclaration]
  split
  · next hkind => exact absurd hkind hvariable
  · next hkind => exact absurd hkind hcursor
  · next hkind => exact absurd hkind hcondition
  · rfl

/-! ## The graph of a procedure -/

variable {e : CfgEdge}

theorem cfgEdges_cases {ast : ProcedureAst} (he : e ∈ cfgEdges ast) :
    e = { source := .entry, target := seqEntry ast.body .normalExit, kind := .entry } ∨
      ∃ ref, e.source = .ast ref := by
  have hadds : Adds ast.body [] e → ∃ ref, e.source = .ast ref := fun h =>
    (adds_source h).imp fun ref href => href.2
  rcases List.mem_append.1 he with he | he
  · rcases List.mem_append.1 he with he | he
    · exact .inr (hadds (.inl he))
    · rcases List.mem_cons.1 he with rfl | he
      · exact .inl rfl
      · obtain ⟨h, hh, he⟩ := List.mem_flatMap.1 he
        exact .inr (hadds (.inr ⟨h, hh, he⟩))
  · obtain ⟨b, -, rfl⟩ := List.mem_map.1 he
    exact .inr ⟨_, rfl⟩

theorem cfgEdges_source {ast : ProcedureAst} (he : e ∈ cfgEdges ast) :
    e.source = .entry ∨ ∃ ref, e.source = .ast ref :=
  (cfgEdges_cases he).imp_left fun h => by rw [h]

theorem cfgEdges_target_ne {ast : ProcedureAst} (he : e ∈ cfgEdges ast) :
    e.target ≠ .entry := fun htarget =>
  not_edge_to_entry ast [] e.source (List.mem_map.2 ⟨e, he, by rw [htarget]; rfl⟩)

/-- **The graph is well formed**, handlers and jumps included: its edges join nodes, none enters the
entry or leaves an exit, and just one leaves the entry. -/
theorem graph_wellFormed (ast : ProcedureAst) :
    (∀ e ∈ (ControlFlowGraph.build ast).edges,
      Joins ast e ∧ e.target ≠ .entry ∧ e.source ≠ .normalExit ∧ e.source ≠ .exceptionalExit) ∧
    ∃! e, e ∈ (ControlFlowGraph.build ast).edges ∧ e.source = .entry := by
  constructor
  · intro e he
    refine ⟨cfgEdges_join e he, cfgEdges_target_ne he, ?_⟩
    grind [cfgEdges_source he]
  · refine ⟨_, ⟨List.mem_append_left _ (List.mem_append_right _ List.mem_cons_self), rfl⟩,
      fun e he => ?_⟩
    apply (cfgEdges_cases he.1).resolve_right
    rintro ⟨ref, hast⟩
    rw [he.2] at hast
    cases hast

/-! ## Definitions along paths -/

/-- A path that goes through the statement, which makes the definition, and through no other that
does. -/
inductive Brought (ast : ProcedureAst) (makes : NodeRef → Prop) (ref : NodeRef) :
    CfgRef → Prop where
  | made {e : CfgEdge} (he : e ∈ cfgEdges ast)
    (hpath : ∃ es, EdgePath (cfgEdges ast) .entry es e.source)
      (hsource : e.source = .ast ref) (hmakes : makes ref) : Brought ast makes ref e.target
  | passed {e : CfgEdge} (he : e ∈ cfgEdges ast) (h : Brought ast makes ref e.source)
      (hclear : ∀ other, e.source = .ast other → ¬ makes other) : Brought ast makes ref e.target

namespace Brought

variable {ast : ProcedureAst} {makes makes' : NodeRef → Prop} {ref : NodeRef}

theorem ne_entry {node : CfgRef} (h : Brought ast makes ref node) : node ≠ .entry := by
  cases h with
  | made he => exact cfgEdges_target_ne he
  | passed he => exact cfgEdges_target_ne he

theorem makes_ref {node : CfgRef} (h : Brought ast makes ref node) : makes ref := by
  induction h with
  | made _ _ _ hmakes => exact hmakes
  | passed _ _ _ ih => exact ih

theorem path {node : CfgRef} (h : Brought ast makes ref node) :
    ∃ es, EdgePath (cfgEdges ast) .entry es node := by
  induction h with
  | made he hpath =>
    obtain ⟨es, hes⟩ := hpath
    exact ⟨_, hes.snoc he⟩
  | passed he _ _ ih =>
    obtain ⟨es, hes⟩ := ih
    exact ⟨_, hes.snoc he⟩

theorem congr (hsame : ∀ e ∈ cfgEdges ast, (∃ es, EdgePath (cfgEdges ast) .entry es e.source) →
      ∀ other next, e.source = .ast other → e.target = .ast next → (makes other ↔ makes' other))
    {node : CfgRef} (h : Brought ast makes ref node) :
    (∃ next, node = .ast next) → Brought ast makes' ref node := by
  induction h with
  | made he hpath hsource hmakes =>
    rintro ⟨next, hnext⟩
    exact .made he hpath hsource ((hsame _ he hpath ref next hsource hnext).1 hmakes)
  | @passed e he h hclear ih =>
    rintro ⟨next, hnext⟩
    have hast : ∃ other, e.source = .ast other :=
      (cfgEdges_source he).resolve_left h.ne_entry
    refine .passed he (ih hast) fun other hother hmakes => ?_
    exact hclear other hother ((hsame e he h.path other next hother hnext).2 hmakes)

end Brought

section Facts

variable {p : ParsedProcedure} {ref : NodeRef} {symbol : String}

theorem mem_targets_iff {stmt : Statement} (h : (ref, stmt) ∈ statementsOf p.ast.body) :
    symbol ∈ targets stmt ↔ symbol ∈ definedSymbols stmt := by
  obtain ⟨source, tokens, hparsed⟩ := p.parsed _ h
  dsimp only at hparsed
  subst hparsed
  have hmem : symbol ∈ targets (parseSimple source tokens) ↔
      ∃ name ∈ definedSymbols (parseSimple source tokens), Text.upperString name = symbol := by
    simp only [targets, definedSymbols, List.mem_map, List.mem_append]
    grind
  rw [hmem]
  constructor
  · rintro ⟨name, hname, rfl⟩
    rwa [upper_definedSymbols hname]
  · exact fun hname => ⟨symbol, hname, upper_definedSymbols hname⟩

theorem mem_defsByNode : symbol ∈ defsByNode p.facts ref ↔ Defines p.ast symbol ref := by
  rw [p.defined]
  constructor
  · rintro ⟨stmt, hmem, hsymbol⟩
    exact ⟨stmt, hmem, (mem_targets_iff hmem).2 hsymbol⟩
  · rintro ⟨stmt, hmem, hsymbol⟩
    exact ⟨stmt, hmem, (mem_targets_iff hmem).1 hsymbol⟩

/-- The statement at the node is an assignment to the symbol. -/
def AssignsTo (ast : ProcedureAst) (symbol : String) (ref : NodeRef) : Prop :=
  ∃ stmt a, (ref, stmt) ∈ statementsOf ast.body ∧ stmt.assignment = some a ∧ a.targetName = symbol

end Facts

/-! ## The solvers over pairs of nodes -/

section Flow

variable {φ : Type} [DecidableEq φ] {q : FlowProblem CfgRef φ} {ast : ProcedureAst}

theorem mem_graphEdges {a b : CfgRef} :
    (a, b) ∈ graphEdges (.build ast) ↔ ∃ e ∈ cfgEdges ast, e.source = a ∧ e.target = b := by
  constructor
  · intro h
    obtain ⟨e, he, hpair⟩ := List.mem_map.1 h
    exact ⟨e, he, (Prod.mk.inj hpair).1, (Prod.mk.inj hpair).2⟩
  · rintro ⟨e, he, rfl, rfl⟩
    exact List.mem_map.2 ⟨e, he, rfl⟩

theorem reached_iff_path (hedges : q.edges = graphEdges (.build ast)) (hentry : q.entry = .entry)
    {n : CfgRef} : q.Reached n ↔ ∃ es, EdgePath (cfgEdges ast) .entry es n := by
  constructor
  · intro h
    induction h with
    | entry => exact ⟨[], hentry ▸ .nil _⟩
    | step _ he ih =>
      rw [hedges] at he
      obtain ⟨e, hedge, rfl, rfl⟩ := mem_graphEdges.1 he
      obtain ⟨es, hes⟩ := ih
      exact ⟨_, hes.snoc hedge⟩
  · rintro ⟨es, hes⟩
    have hforward : ∀ {first last : CfgRef} {es : List CfgEdge},
        EdgePath (cfgEdges ast) first es last → q.Reached first → q.Reached last := by
      intro first last es h
      induction h with
      | nil => exact fun h => h
      | cons he _ ih =>
        intro h
        refine ih (.step h ?_)
        rw [hedges]
        exact mem_graphEdges.2 ⟨_, he, rfl, rfl⟩
    exact hforward hes (hentry ▸ .entry)

/-- What the analysis generates is what a path brings. -/
theorem generated_iff_brought (hedges : q.edges = graphEdges (.build ast))
    (hentry : q.entry = .entry) {x : φ} {makes : NodeRef → Prop} {ref : NodeRef}
    (hgen : ∀ n, x ∈ q.gen n ↔ n = .ast ref ∧ makes ref)
    (hkill : ∀ n, q.kills n x = true ↔ ∃ other, n = .ast other ∧ makes other) {n : CfgRef} :
    q.Generated x n ↔ Brought ast makes ref n := by
  constructor
  · intro h
    induction h with
    | gen hreached hx he =>
      rw [hedges] at he
      obtain ⟨e, hedge, rfl, rfl⟩ := mem_graphEdges.1 he
      obtain ⟨hsource, hmakes⟩ := (hgen _).1 hx
      exact .made hedge ((reached_iff_path hedges hentry).1 hreached) hsource hmakes
    | step _ hclear he ih =>
      rw [hedges] at he
      obtain ⟨e, hedge, rfl, rfl⟩ := mem_graphEdges.1 he
      refine .passed hedge ih fun other hsource hmakes => ?_
      rw [(hkill _).2 ⟨other, hsource, hmakes⟩] at hclear
      cases hclear
  · intro h
    induction h with
    | made he hpath hsource hmakes =>
      refine .gen ((reached_iff_path hedges hentry).2 hpath) ((hgen _).2 ⟨hsource, hmakes⟩) ?_
      rw [hedges]
      exact mem_graphEdges.2 ⟨_, he, rfl, rfl⟩
    | passed he _ hclear ih =>
      refine .step ih ?_ ?_
      · rw [Bool.eq_false_iff]
        intro hkilled
        obtain ⟨other, hsource, hmakes⟩ := (hkill _).1 hkilled
        exact hclear other hsource hmakes
      · rw [hedges]
        exact mem_graphEdges.2 ⟨_, he, rfl, rfl⟩

end Flow

/-! ## What each analysis holds -/

section Analyses

variable {p : ParsedProcedure} {ref node : NodeRef} {symbol : String}

theorem not_executable_of_declaration {stmt : Statement}
    (h : (ref, stmt) ∈ statementsOf p.ast.body) (hkind : stmt.kind = .declareVariable) :
    ¬ Executable p.ast ref := by
  rintro ⟨stmt', h', hdeclaration⟩
  rw [statement_unique h' h] at hdeclaration
  simp [Node.isDeclaration, hkind] at hdeclaration

/-- The slicer holds a statement just when a path on which every definition counts brings it. -/
theorem mem_slicerDefinitions (hnode : .ast node ∈ p.graph.nodes) (href : Executable p.ast ref) :
    ref ∈ slicerDefinitions p node symbol ↔
      Brought p.ast (Defines p.ast symbol) ref (.ast node) := by
  show ref ∈ Slicing.reachingAt p.ast p.facts node symbol ↔ _
  rw [mem_reachingAt, Traced, and_iff_right hnode, FlowProblem.Reaches]
  have hinit : ¬ (symbol, DefinitionRef.node ref) ∈ (initialDefs p.ast).toFinset := by
    intro hmem
    rcases List.mem_append.1 (mem_initialDefs (List.mem_toFinset.1 hmem)) with h | h
    · obtain ⟨parameter, -, hpair⟩ := List.mem_map.1 h
      cases hpair
    · obtain ⟨d, hd, hpair⟩ := List.mem_map.1 h
      cases hpair
      obtain ⟨s, hs, heq⟩ := List.mem_filterMap.1 hd
      obtain ⟨hs, hkind⟩ := List.mem_filter.1 hs
      have href' : s.1 = d.2 := by
        split at heq
        · obtain ⟨name, -, rfl⟩ := Option.map_eq_some_iff.1 heq
          rfl
        · cases heq
      rw [← href'] at href
      exact not_executable_of_declaration hs (of_decide_eq_true hkind) href
  rw [or_iff_right fun h => hinit h.1]
  refine generated_iff_brought rfl rfl (fun n => ?_) (fun n => ?_)
  · cases n with
    | ast other =>
      have hgen : (symbol, DefinitionRef.node ref) ∈ (definitionFlow p.ast p.facts).gen
        (.ast other) ↔
          ∃ s ∈ defsByNode p.facts other, (s, DefinitionRef.node other) = (symbol, .node ref) := by
        show _ ∈ List.toFinset _ ↔ _
        rw [List.mem_toFinset, List.mem_map]
      rw [hgen]
      constructor
      · rintro ⟨s, hs, hpair⟩
        cases hpair
        exact ⟨rfl, mem_defsByNode.1 hs⟩
      · rintro ⟨hother, hdefines⟩
        obtain rfl := CfgRef.ast.inj hother
        exact ⟨symbol, mem_defsByNode.2 hdefines, rfl⟩
    | entry => exact ⟨fun h => absurd h (Finset.notMem_empty _), nofun⟩
    | normalExit => exact ⟨fun h => absurd h (Finset.notMem_empty _), nofun⟩
    | exceptionalExit => exact ⟨fun h => absurd h (Finset.notMem_empty _), nofun⟩
    | handlerExit => exact ⟨fun h => absurd h (Finset.notMem_empty _), nofun⟩
  · cases n with
    | ast other =>
      show decide (symbol ∈ defsByNode p.facts other) = true ↔ _
      rw [decide_eq_true_eq, mem_defsByNode]
      constructor
      · exact fun h => ⟨other, rfl, h⟩
      · rintro ⟨other', heq, h⟩
        rwa [CfgRef.ast.inj heq]
    | entry => exact ⟨nofun, nofun⟩
    | normalExit => exact ⟨nofun, nofun⟩
    | exceptionalExit => exact ⟨nofun, nofun⟩
    | handlerExit => exact ⟨nofun, nofun⟩

theorem executable_initial (href : Executable p.ast ref) :
    (name, ref) ∉ initialVariables p.ast := by
  have hfold : ∀ (ds entries : List (String × NodeRef)) (d : String × NodeRef),
      d ∈ ds.foldl (fun entries d => d :: entries.filter fun entry => entry.1 ≠ d.1) entries →
        d ∈ entries ∨ d ∈ ds := by
    intro ds
    induction ds with
    | nil => exact fun entries d h => .inl h
    | cons first ds ih =>
      intro entries d h
      rcases ih _ d h with h | h
      · rcases List.mem_cons.1 h with rfl | h
        · exact .inr List.mem_cons_self
        · exact .inl (List.mem_of_mem_filter h)
      · exact .inr (List.mem_cons_of_mem _ h)
  intro hmem
  rcases hfold _ _ _ hmem with h | h
  · cases h
  · obtain ⟨s, hs, heq⟩ := List.mem_filterMap.1 h
    obtain ⟨hs, hkind⟩ := List.mem_filter.1 hs
    obtain ⟨other, -, hpair⟩ := Option.map_eq_some_iff.1 heq
    obtain rfl : s.1 = ref := (Prod.mk.inj hpair).2
    exact not_executable_of_declaration hs (of_decide_eq_true hkind) href

theorem lookup_statement {stmt : Statement} (h : (ref, stmt) ∈ statementsOf p.ast.body) :
    (statementsOf p.ast.body).lookup ref = some stmt :=
  lookup_of_mem_of_nodup (statements_nodup p.ast) h

/-- The analyzer of dynamic statements holds a statement just when a path on which only assignments
count brings it. -/
theorem mem_dynamicSqlDefinitions (hnode : .ast node ∈ p.graph.nodes)
    (href : Executable p.ast ref) :
    ref ∈ dynamicSqlDefinitions p node symbol ↔
      Brought p.ast (AssignsTo p.ast symbol) ref (.ast node) := by
  have hentry : ∀ n, (n, (dynamicDefinitions p.ast p.graph).entry) ∉
      (dynamicDefinitions p.ast p.graph).edges := not_edge_to_entry p.ast p.facts
  have hmem : ref ∈ dynamicSqlDefinitions p node symbol ↔
      .variableDef symbol ref ∈
        ((dynamicDefinitions p.ast p.graph).solveFlow.incoming (.ast node)).getD ∅ := by
    rw [dynamicSqlDefinitions, variableDefs, if_pos hnode, Finset.mem_biUnion]
    constructor
    · rintro ⟨fact, hfact, hin⟩
      cases fact with
      | variableDef other source =>
        dsimp only at hin
        split at hin
        · next hname =>
            rw [Finset.mem_singleton.1 hin, ← hname]
            exact hfact
        · cases hin
      | preparedDef other source => cases hin
    · intro hfact
      exact ⟨_, hfact, by simp⟩
  rw [hmem, FlowProblem.mem_incoming_iff hentry, FlowProblem.Reaches]
  have hinit : ¬ FlowFact.variableDef symbol ref ∈ (dynamicDefinitions p.ast p.graph).init := by
    intro h
    obtain ⟨d, hd, hfact⟩ := List.mem_map.1 (List.mem_toFinset.1 h)
    cases hfact
    exact executable_initial href hd
  rw [or_iff_right fun h => hinit h.1]
  refine generated_iff_brought rfl rfl (fun n => ?_) (fun n => ?_)
  · cases n with
    | ast other =>
      have hgen : FlowFact.variableDef symbol ref ∈ (dynamicDefinitions p.ast p.graph).gen
        (.ast other) ↔
          ∃ stmt, (statementsOf p.ast.body).lookup other = some stmt ∧
            .variableDef symbol ref ∈ definitionsOf other stmt := by
        show _ ∈ List.toFinset _ ↔ _
        rw [List.mem_toFinset, List.mem_flatMap]
        simp only [Option.mem_toList]
      rw [hgen]
      constructor
      · rintro ⟨stmt, hlookup, hdefined⟩
        rcases List.mem_append.1 hdefined with h | h
        · obtain ⟨a, ha, hfact⟩ := List.mem_map.1 h
          cases hfact
          exact ⟨rfl, stmt, a, mem_of_lookup hlookup, Option.mem_toList.1 ha, rfl⟩
        · obtain ⟨prepare, -, hfact⟩ := List.mem_map.1 h
          cases hfact
      · rintro ⟨hother, stmt, a, hstmt, ha, rfl⟩
        obtain rfl := CfgRef.ast.inj hother
        refine ⟨stmt, lookup_statement hstmt, List.mem_append_left _ ?_⟩
        exact List.mem_map.2 ⟨a, Option.mem_toList.2 ha, rfl⟩
    | entry => exact ⟨fun h => absurd h (Finset.notMem_empty _), nofun⟩
    | normalExit => exact ⟨fun h => absurd h (Finset.notMem_empty _), nofun⟩
    | exceptionalExit => exact ⟨fun h => absurd h (Finset.notMem_empty _), nofun⟩
    | handlerExit => exact ⟨fun h => absurd h (Finset.notMem_empty _), nofun⟩
  · cases n with
    | ast other =>
      show (((statementsOf p.ast.body).lookup other).any fun stmt =>
        replaces stmt (.variableDef symbol ref)) = true ↔ _
      rw [Option.any_eq_true]
      constructor
      · rintro ⟨stmt, hlookup, hreplaces⟩
        obtain ⟨a, ha, hname⟩ := (Option.any_eq_true _ _).1 hreplaces
        exact ⟨other, rfl, stmt, a, mem_of_lookup hlookup, ha, of_decide_eq_true hname⟩
      · rintro ⟨other', heq, stmt, a, hstmt, ha, hname⟩
        obtain rfl := CfgRef.ast.inj heq
        exact ⟨stmt, lookup_statement hstmt,
          (Option.any_eq_true _ _).2 ⟨a, ha, decide_eq_true hname⟩⟩
    | entry => exact ⟨nofun, nofun⟩
    | normalExit => exact ⟨nofun, nofun⟩
    | exceptionalExit => exact ⟨nofun, nofun⟩
    | handlerExit => exact ⟨nofun, nofun⟩

theorem takesEffect_of_assigns (he : e ∈ cfgEdges p.ast) (hsource : e.source = .ast ref)
    (h : AssignsTo p.ast symbol ref) : TakesEffect p.ast p.graph e symbol ref := by
  obtain ⟨stmt, a, hstmt, ha, rfl⟩ := h
  obtain ⟨source, tokens, hparsed⟩ := p.parsed _ hstmt
  dsimp only at hparsed
  subst hparsed
  have hlookup := cfgStatements_lookup (isNode_of_source he hsource) hstmt
  have hsites : edgeSites p.ast p.graph e =
    nodeDefinitionSites ref (parseSimple source tokens) := by
    simp [edgeSites, hsource, hlookup, (assignment_only ha).2]
  have hdefined : a.targetName ∈ definedSymbols (parseSimple source tokens) := by
    simp [definedSymbols, ha]
  obtain ⟨d, hd, hname⟩ := mem_targets.1 ((mem_targets_iff hstmt).2 hdefined)
  exact ⟨d, by rw [hsites]; exact hd, hname, nodeDefinitionSites_source hd⟩

theorem defines_of_takesEffect (h : TakesEffect p.ast p.graph e symbol ref) :
    e.source = .ast ref ∧ Defines p.ast symbol ref := by
  obtain ⟨d, hd, hname, href⟩ := h
  have hsource := edgeSites_source hd
  rw [href] at hsource
  refine ⟨hsource, ?_⟩
  by_contra hdefines
  exact edgeSites_of_not_defines hsource hdefines d hd hname

theorem defines_iff_assigns {stmt : Statement} (hstmt : (ref, stmt) ∈ statementsOf p.ast.body)
    (hinto : intoTargets stmt = []) : Defines p.ast symbol ref ↔ AssignsTo p.ast symbol ref := by
  rw [defines_iff hstmt, mem_targets_iff hstmt]
  constructor
  · intro h
    have hassigned : symbol ∈ stmt.assignment.toList.map AssignmentBinding.targetName := by
      simp only [intoTargets, List.append_eq_nil_iff] at hinto
      simpa [definedSymbols, hinto] using h
    obtain ⟨a, ha, hname⟩ := List.mem_map.1 hassigned
    exact ⟨stmt, a, hstmt, Option.mem_toList.1 ha, hname⟩
  · rintro ⟨stmt', a, hstmt', ha, rfl⟩
    rw [statement_unique hstmt' hstmt] at ha
    simp [definedSymbols, ha]

theorem mem_definitionsBeforeAst :
    ref ∈ definitionsBeforeAst p node symbol ↔
      DefinitionArrives p.ast p.graph (Text.upperString symbol) ref (.ast node) := by
  rw [definitionsBeforeAst, mem_definitionsAtCfg, mem_reaching_iff]

theorem IntoEndsPaths.assigns (h : IntoEndsPaths p) (he : e ∈ cfgEdges p.ast)
    (hpath : ∃ es, EdgePath (cfgEdges p.ast) .entry es e.source) {next : NodeRef}
    (hsource : e.source = .ast ref) (htarget : e.target = .ast next) :
    Defines p.ast symbol ref ↔ AssignsTo p.ast symbol ref := by
  constructor
  · intro hdefines
    have hstatement := hdefines
    obtain ⟨stmt, hstmt, -⟩ := hstatement
    exact (defines_iff_assigns hstmt (h e he hpath ref next stmt hsource htarget hstmt)).1 hdefines
  · intro hassigns
    have hstatement := hassigns
    obtain ⟨stmt, a, hstmt, -⟩ := hstatement
    exact (defines_iff_assigns hstmt (h e he hpath ref next stmt hsource htarget hstmt)).2 hassigns

theorem Brought.along {first last : CfgRef} {es : List CfgEdge}
    (h : Brought p.ast (AssignsTo p.ast symbol) ref first)
    (hpath : EdgePath (cfgEdges p.ast) first es last)
    (hkeep : ∀ e ∈ es, ∀ other, TakesEffect p.ast p.graph e symbol other → other = ref) :
    Brought p.ast (AssignsTo p.ast symbol) ref last := by
  induction hpath with
  | nil => exact h
  | @cons e es node he _ ih =>
    obtain ⟨hfirst, hrest⟩ := List.forall_mem_cons.1 hkeep
    refine ih ?_ hrest
    by_cases hassigns : ∃ other, e.source = .ast other ∧ AssignsTo p.ast symbol other
    · obtain ⟨other, hsource, hassigns⟩ := hassigns
      obtain rfl := hfirst other (takesEffect_of_assigns he hsource hassigns)
      exact .made he h.path hsource hassigns
    · exact .passed he h fun other hsource hmakes => hassigns ⟨other, hsource, hmakes⟩

theorem IntoEndsPaths.brought_of_arrives (h : IntoEndsPaths p)
    (harrives : DefinitionArrives p.ast p.graph symbol ref (.ast node)) :
    Brought p.ast (AssignsTo p.ast symbol) ref (.ast node) := by
  obtain ⟨before, e, after, hpath, hmade, hkeep⟩ := harrives
  obtain ⟨source, hbefore, hrest⟩ := hpath.split
  obtain ⟨rfl, he, hafter⟩ := hrest.cons_inv
  obtain ⟨hsource, hdefines⟩ := defines_of_takesEffect hmade
  have htarget : ∃ next, e.target = .ast next := by
    generalize hnext : e.target = next at hafter ⊢
    cases hafter with
    | nil => exact ⟨node, rfl⟩
    | cons he' _ =>
      rcases cfgEdges_source he' with hentry | hast
      · exact absurd (hnext.trans hentry) (cfgEdges_target_ne he)
      · exact hast
  obtain ⟨next, htarget⟩ := htarget
  have hassigns := (h.assigns he ⟨before, hbefore⟩ hsource htarget).1 hdefines
  exact Brought.along (.made he ⟨before, hbefore⟩ hsource hassigns) hafter hkeep

theorem IntoEndsPaths.arrives_of_brought (h : IntoEndsPaths p) {n : CfgRef}
    (hbrought : Brought p.ast (AssignsTo p.ast symbol) ref n) :
    (∃ next, n = .ast next) → DefinitionArrives p.ast p.graph symbol ref n := by
  induction hbrought with
  | @made e he hpath hsource hmakes =>
    intro _
    obtain ⟨es, hes⟩ := hpath
    refine ⟨es, e, [], ?_, takesEffect_of_assigns he hsource hmakes, List.forall_mem_nil _⟩
    exact hes.snoc he
  | @passed e he hbrought hclear ih =>
    rintro ⟨next, hnext⟩
    have hast := (cfgEdges_source he).resolve_left hbrought.ne_entry
    refine (ih hast).step he fun other hother => ?_
    obtain ⟨hsource, hdefines⟩ := defines_of_takesEffect hother
    exact hclear other hsource ((h.assigns he hbrought.path hsource hnext).1 hdefines)

/-- Where the analyses agree no statement with `INTO` targets is followed by another node: the
slicer brings its targets there, and the analyzer of dynamic statements does not. -/
theorem DefinitionsAgree.intoEndsPaths (h : DefinitionsAgree p) : IntoEndsPaths p := by
  intro e he hpath ref next stmt hsource htarget hstmt
  by_contra hinto
  obtain ⟨symbol, hsymbol⟩ := List.exists_mem_of_ne_nil _ hinto
  have hdefined : symbol ∈ definedSymbols stmt := by
    simp only [intoTargets, List.mem_append] at hsymbol
    simp only [definedSymbols, List.mem_append]
    tauto
  obtain ⟨source, tokens, hparsed⟩ := p.parsed _ hstmt
  dsimp only at hparsed
  subst hparsed
  have hexecutable : Executable p.ast ref :=
    ⟨_, hstmt, into_not_declaration (List.ne_nil_of_mem hsymbol)⟩
  have hnode : .ast next ∈ p.graph.nodes := htarget ▸ (cfgEdges_join e he).2
  have hdefines : Defines p.ast symbol ref := ⟨_, hstmt, (mem_targets_iff hstmt).2 hdefined⟩
  have hbrought : Brought p.ast (Defines p.ast symbol) ref (.ast next) :=
    htarget ▸ .made he hpath hsource hdefines
  obtain ⟨hslicer, hdynamic⟩ := h next hnode symbol (upper_definedSymbols hdefined) ref hexecutable
  have hheld := hdynamic.1 (hslicer.2 ((mem_slicerDefinitions hnode hexecutable).2 hbrought))
  obtain ⟨stmt', a, hstmt', ha, -⟩ :=
    ((mem_dynamicSqlDefinitions hnode hexecutable).1 hheld).makes_ref
  rw [statement_unique hstmt' hstmt] at ha
  exact hinto (assignment_only ha).1

theorem IntoEndsPaths.agree (h : IntoEndsPaths p) : DefinitionsAgree p := by
  intro node hnode symbol hupper ref hexecutable
  have hbefore : ref ∈ definitionsBeforeAst p node symbol ↔
      Brought p.ast (AssignsTo p.ast symbol) ref (.ast node) := by
    rw [mem_definitionsBeforeAst, hupper]
    exact ⟨h.brought_of_arrives, fun hb => h.arrives_of_brought hb ⟨node, rfl⟩⟩
  rw [hbefore, mem_slicerDefinitions hnode hexecutable, mem_dynamicSqlDefinitions hnode hexecutable]
  refine ⟨⟨fun hb => ?_, fun hb => ?_⟩, Iff.rfl⟩
  · exact hb.congr (fun e he hpath other next hsource htarget =>
      (h.assigns he hpath hsource htarget).symm) ⟨node, rfl⟩
  · exact hb.congr (fun e he hpath other next hsource htarget =>
      h.assigns he hpath hsource htarget) ⟨node, rfl⟩

/-- **The three analyses of a procedure agree exactly when no statement with `INTO` targets is
followed by another node.** -/
theorem definitions_agree_iff (p : ParsedProcedure) : DefinitionsAgree p ↔ IntoEndsPaths p :=
  ⟨DefinitionsAgree.intoEndsPaths, IntoEndsPaths.agree⟩

end Analyses

def selectThenSetAst : ProcedureAst where
  nodeId := "procedure"
  parameters := []
  commitOnReturn := none
  body := [
    .simple "select"
    (parseSimple "SELECT A INTO V FROM T;" (scan "SELECT A INTO V FROM T;").tokens),
    .simple "set" (parseSimple "SET W = V;" (scan "SET W = V;").tokens)]
  distinct := by decide

def selectThenSetFacts : List StateAccessFact :=
  [⟨"V", .define, "select"⟩, ⟨"W", .define, "set"⟩, ⟨"V", .use, "set"⟩]

theorem selectThenSetAst_parsed : ∀ s ∈ statementsOf selectThenSetAst.body,
    ∃ source tokens, s.2 = parseSimple source tokens := by
  intro s hs
  simp only [selectThenSetAst, statementsOf, Node.statements, List.mem_cons, List.append_nil,
    List.singleton_append, List.not_mem_nil, or_false] at hs
  rcases hs with rfl | rfl
  · exact ⟨_, _, rfl⟩
  · exact ⟨_, _, rfl⟩

theorem selectThenSetAst_defined (ref : NodeRef) (symbol : String) :
    symbol ∈ defsByNode selectThenSetFacts ref ↔
      ∃ stmt, (ref, stmt) ∈ statementsOf selectThenSetAst.body ∧ symbol ∈ definedSymbols stmt := by
  have hselect : definedSymbols (parseSimple "SELECT A INTO V FROM T;"
      (scan "SELECT A INTO V FROM T;").tokens) = ["V"] := by decide +kernel
  have hset : definedSymbols (parseSimple "SET W = V;" (scan "SET W = V;").tokens) = ["W"] := by
    decide +kernel
  have hfacts : defsByNode selectThenSetFacts ref =
      if ref = "select" then ["V"] else if ref = "set" then ["W"] else [] := by
    by_cases hs : ref = "select"
    · subst hs
      decide +kernel
    · by_cases ht : ref = "set"
      · subst ht
        decide +kernel
      · simp [selectThenSetFacts, defsByNode, symbolsAt, hs, ht, Ne.symm hs, Ne.symm ht]
  rw [hfacts]
  simp only [selectThenSetAst, statementsOf, Node.statements, List.append_nil,
    List.singleton_append, List.mem_cons,
    Prod.mk.injEq, List.not_mem_nil, or_false]
  constructor
  · intro h
    split at h
    · next href => exact ⟨_, .inl ⟨href, rfl⟩, by rwa [hselect]⟩
    · split at h
      · next href => exact ⟨_, .inr ⟨href, rfl⟩, by rwa [hset]⟩
      · cases h
  · rintro ⟨stmt, ⟨rfl, rfl⟩ | ⟨rfl, rfl⟩, hsymbol⟩
    · rwa [hselect] at hsymbol
    · rwa [hset] at hsymbol

/-- `SELECT A INTO V FROM T; SET W = V;` -/
def selectThenSet : ParsedProcedure where
  ast := selectThenSetAst
  facts := selectThenSetFacts
  parsed := selectThenSetAst_parsed
  defined := selectThenSetAst_defined

/-- The value of `V` is known to the slicer at the assignment, and not to the analyzer of dynamic
statements. -/
theorem select_into_divides_the_analyses : ¬ ∀ p, DefinitionsAgree p := by
  intro h
  have hnext : CfgEdge.mk (.ast "select") (.ast "set") .sequential none none none none ∈
      cfgEdges selectThenSet.ast := by decide +kernel
  have hentry : CfgEdge.mk .entry (.ast "select") .entry none none none none ∈
      cfgEdges selectThenSet.ast := by decide +kernel
  have hinto := (h selectThenSet).intoEndsPaths _ hnext ⟨_, .cons hentry (.nil _)⟩ "select" "set" _
    rfl rfl List.mem_cons_self
  revert hinto
  decide +kernel

end AtlasDb.Semantics
