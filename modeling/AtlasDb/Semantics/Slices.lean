import AtlasDb.Analysis.Slicing
import AtlasDb.Lib.Assoc

/-!
# What a slice holds

A slice should be closed under data dependence: for every node in it and every symbol the node uses,
the definitions that reach the node are in it, and a parameter whose caller's value reaches is among
its sources. What reaches is said by paths of the graph (`DefinitionReaches`, `CallerValueReaches`);
the nodes and parameters of a slice are those found by the uses that are traced (`Traced`,
`Demanded`).

The trace leaves out three things: it does not go from a definition to the same symbol at that
definition, it notes a parameter only where no definition reaches, and of two declarations with
defaults it takes the last. The slice is closed just when none of these loses anything
(`slice_closed_iff`).
-/

namespace AtlasDb.Analysis.Slicing

open Core Parsing Lib

/-! ## No edge enters the entry -/

/-- No jump goes to the entry. -/
def AvoidsEntry (stack : List ControlContext) : Prop :=
  ∀ c ∈ stack, c.exitRef ≠ .entry ∧ c.loopHeader ≠ some .entry

theorem avoidsEntry_nil : AvoidsEntry [] := fun _ h => nomatch h

theorem resolveControlTarget_ne_entry {label : Option String} {iterate : Bool}
    {stack : List ControlContext} (hstack : AvoidsEntry stack) :
    resolveControlTarget label iterate stack ≠ .entry := by
  unfold resolveControlTarget
  split
  · next context hfind =>
      obtain ⟨hexit, hheader⟩ := hstack context (List.mem_of_find?_eq_some hfind)
      split
      · cases hloop : context.loopHeader with
        | none => exact hexit
        | some header => exact fun heq => hheader (by rw [hloop, ← heq]; rfl)
      · exact hexit
  · split <;> exact nofun

theorem statementEdge_ne_entry {id : NodeRef} {stmt : Statement} {continuation : CfgRef}
    {stack : List ControlContext} (hcont : continuation ≠ .entry) (hstack : AvoidsEntry stack) :
    (statementEdge id stmt continuation stack).target ≠ .entry := by
  unfold statementEdge
  split
  · exact nofun
  · exact nofun
  · exact nofun
  · exact resolveControlTarget_ne_entry hstack
  · exact resolveControlTarget_ne_entry hstack
  · exact hcont

theorem seqEntry_ne_entry {continuation : CfgRef} (hcont : continuation ≠ .entry) :
    ∀ code : List Node, seqEntry code continuation ≠ .entry
  | [] => hcont
  | n :: ns => by
      show nodeEntry n _ ≠ _
      unfold nodeEntry
      split
      · exact seqEntry_ne_entry hcont ns
      · exact nofun

mutual

theorem nodeEdges_ne_entry (n : Node) {continuation : CfgRef} {stack : List ControlContext}
    (hcont : continuation ≠ .entry) (hstack : AvoidsEntry stack) :
    ∀ e ∈ nodeEdges n continuation stack, e.target ≠ .entry := by
  intro e he
  cases n with
  | simple id stmt =>
    simp only [nodeEdges] at he
    split at he
    · cases he
    · rw [List.mem_singleton.mp he]
      exact statementEdge_ne_entry hcont hstack
  | compound id label text body =>
    have hinner : AvoidsEntry (blockContext label continuation :: stack) :=
      List.forall_mem_cons.mpr ⟨⟨hcont, nofun⟩, hstack⟩
    rcases List.mem_append.mp he with he | he
    · exact seqEdges_ne_entry body hcont hinner e he
    · rw [List.mem_singleton.mp he]
      exact seqEntry_ne_entry hcont body
  | ifRegion id arms => exact armEdges_ne_entry id 0 false false arms hcont hstack e he
  | loop id region body =>
    have hinner : AvoidsEntry (loopContext id region continuation :: stack) :=
      List.forall_mem_cons.mpr ⟨⟨hcont, nofun⟩, hstack⟩
    have hid : CfgRef.ast id ≠ .entry := nofun
    rcases List.mem_append.mp he with he | he
    · exact seqEdges_ne_entry body hid hinner e he
    · rcases List.mem_cons.mp he with rfl | he
      · exact seqEntry_ne_entry hid body
      · split at he
        · cases he
        · rw [List.mem_singleton.mp he]
          exact hcont
  | handler => cases he

theorem seqEdges_ne_entry (code : List Node) {continuation : CfgRef} {stack : List ControlContext}
    (hcont : continuation ≠ .entry) (hstack : AvoidsEntry stack) :
    ∀ e ∈ seqEdges code continuation stack, e.target ≠ .entry := by
  intro e he
  cases code with
  | nil => cases he
  | cons n ns =>
    rcases List.mem_append.mp he with he | he
    · exact seqEdges_ne_entry ns hcont hstack e he
    · exact nodeEdges_ne_entry n (seqEntry_ne_entry hcont ns) hstack e he

theorem armEdges_ne_entry (id : NodeRef) (index : Nat) (hasElse always : Bool) (arms : List Arm)
    {continuation : CfgRef} {stack : List ControlContext} (hcont : continuation ≠ .entry)
    (hstack : AvoidsEntry stack) :
    ∀ e ∈ armEdges id index hasElse always arms continuation stack, e.target ≠ .entry := by
  intro e he
  cases arms with
  | nil =>
    simp only [armEdges] at he
    split at he
    · rw [List.mem_singleton.mp he]
      exact hcont
    · cases he
  | cons a arms =>
    obtain ⟨header, body⟩ := a
    simp only [armEdges, List.mem_append, List.mem_cons] at he
    rcases he with he | rfl | he | he
    · exact seqEdges_ne_entry body hcont hstack e he
    · exact seqEntry_ne_entry hcont body
    · split at he
      · cases he
      · rw [List.mem_singleton.mp he]
        exact nofun
    · exact armEdges_ne_entry id _ _ _ arms hcont hstack e he

end

theorem handlerEdges_ne_entry (h : Handler) : ∀ e ∈ handlerEdges h, e.target ≠ .entry := by
  have hfall : handlerFallthrough h ≠ .entry := by
    unfold handlerFallthrough
    split <;> exact nofun
  intro e he
  unfold handlerEdges at he
  rcases List.mem_append.mp he with he | he
  · exact seqEdges_ne_entry h.body hfall avoidsEntry_nil e he
  · rcases List.mem_cons.mp he with rfl | he
    · exact seqEntry_ne_entry hfall h.body
    · split at he
      · rw [List.mem_singleton.mp he]
        exact hfall
      · cases he

theorem not_edge_to_entry (ast : ProcedureAst) (facts : List StateAccessFact) (n : CfgRef) :
    (n, (reachingDefinitions ast facts (.build ast)).entry) ∉
      (reachingDefinitions ast facts (.build ast)).edges := by
  intro hmem
  obtain ⟨e, he, hpair⟩ := List.mem_map.mp hmem
  have htarget : e.target = .entry := (Prod.mk.inj hpair).2
  have hexit : CfgRef.normalExit ≠ .entry := nofun
  revert htarget
  rcases List.mem_append.mp he with he | he
  · rcases List.mem_append.mp he with he | he
    · exact seqEdges_ne_entry ast.body hexit avoidsEntry_nil e he
    · rcases List.mem_cons.mp he with rfl | he
      · exact seqEntry_ne_entry hexit ast.body
      · obtain ⟨h, -, he⟩ := List.mem_flatMap.mp he
        exact handlerEdges_ne_entry h e he
  · obtain ⟨b, -, rfl⟩ := List.mem_map.mp he
    exact nofun

/-! ## What reaches a use -/

section Spec

variable (ast : ProcedureAst) (facts : List StateAccessFact)

/-- The graph of the procedure with the definitions of its nodes. -/
abbrev definitionFlow : FlowProblem CfgRef (String × DefinitionRef) :=
  reachingDefinitions ast facts (.build ast)

/-- The definition at `ref` reaches the node: some path defines the symbol there and not again, or
`ref` declares it with a default and some path from the entry does not define it. -/
def DefinitionReaches (ref node : NodeRef) (symbol : String) : Prop :=
  .ast node ∈ (ControlFlowGraph.build ast).nodes ∧
    ((definitionFlow ast facts).Generated (symbol, .node ref) (.ast node) ∨
      (symbol, ref) ∈ declaredDefaults ast ∧
        (definitionFlow ast facts).Clear (symbol, .node ref) (.ast node))

/-- The caller passes a value for the parameter, and some path from the entry does not define it. -/
def CallerValueReaches (node : NodeRef) (symbol : String) : Prop :=
  .ast node ∈ (ControlFlowGraph.build ast).nodes ∧
    (∃ p ∈ ast.parameters, Text.upperString p.name = symbol ∧ p.mode ≠ .out) ∧
    (definitionFlow ast facts).Clear (symbol, .parameter symbol) (.ast node)

/-- Closed under data dependence. -/
def ClosedUnderDependence (slice : Slice) : Prop :=
  ∀ node ∈ slice.localNodes, ∀ symbol ∈ symbolsUsedByNode ast facts node,
    (∀ ref, DefinitionReaches ast facts ref node symbol → ref ∈ slice.localNodes) ∧
      (CallerValueReaches ast facts node symbol → symbol ∈ slice.parameterSources)

/-! ## The trace -/

/-- The definitions the analysis keeps: of the defaults declared for a symbol it has one. -/
def Traced (ref node : NodeRef) (symbol : String) : Prop :=
  .ast node ∈ (ControlFlowGraph.build ast).nodes ∧
    (definitionFlow ast facts).Reaches (symbol, .node ref) (.ast node)

/-- The uses that are traced from the statements and conditions `roots`: from a definition on with
the other symbols it uses, or with those of a default where no definition reaches. -/
inductive Demanded (roots : List NodeRef) : NodeRef → String → Prop where
  | root {node : NodeRef} {symbol : String} (hnode : node ∈ roots)
      (hsymbol : symbol ∈ symbolsUsedByNode ast facts node) : Demanded roots node symbol
  | definition {node ref : NodeRef} {symbol other : String} (h : Demanded roots node symbol)
      (hreach : Traced ast facts ref node symbol)
      (hother : other ∈ symbolsUsedByNode ast facts ref) (hne : other ≠ symbol) :
      Demanded roots ref other
  | default {node ref : NodeRef} {symbol other : String} (h : Demanded roots node symbol)
      (hnone : ∀ ref, ¬ Traced ast facts ref node symbol) (hparameter : symbol ∉ parameterNames ast)
      (hdefault : declarationDefaultRef ast symbol = some ref)
      (hother : other ∈ symbolsUsedByNode ast facts ref) : Demanded roots ref other

/-- The nodes that the traced uses find. -/
inductive Found (roots : List NodeRef) : NodeRef → Prop where
  | root {node : NodeRef} (h : node ∈ roots) : Found roots node
  | definition {node ref : NodeRef} {symbol : String} (h : Demanded ast facts roots node symbol)
      (hreach : Traced ast facts ref node symbol) : Found roots ref
  | default {node ref : NodeRef} {symbol : String} (h : Demanded ast facts roots node symbol)
      (hnone : ∀ ref, ¬ Traced ast facts ref node symbol) (hparameter : symbol ∉ parameterNames ast)
      (hdefault : declarationDefaultRef ast symbol = some ref) : Found roots ref

/-- A traced use of the parameter is reached by no definition. -/
def Noted (roots : List NodeRef) (symbol : String) : Prop :=
  symbol ∈ parameterNames ast ∧
    ∃ node, Demanded ast facts roots node symbol ∧ ∀ ref, ¬ Traced ast facts ref node symbol

/-- None of the three omissions of the trace loses anything. -/
structure NothingLost (roots : List NodeRef) : Prop where
  /-- A definition that reads the symbol it defines, traced for that symbol only. -/
  selfReads : ∀ node symbol ref, Demanded ast facts roots node symbol →
    Traced ast facts ref node symbol → symbol ∈ symbolsUsedByNode ast facts ref →
    ¬ Demanded ast facts roots ref symbol →
      (∀ earlier, DefinitionReaches ast facts earlier ref symbol → Found ast facts roots earlier) ∧
        (CallerValueReaches ast facts ref symbol → Noted ast facts roots symbol)
  /-- A use that a definition and the caller's value reach. -/
  mixed : ∀ node symbol ref, Demanded ast facts roots node symbol →
    Traced ast facts ref node symbol → CallerValueReaches ast facts node symbol →
      Noted ast facts roots symbol
  /-- A use of a symbol that is declared with a default more than once. -/
  redeclared : ∀ node symbol ref, Demanded ast facts roots node symbol →
    DefinitionReaches ast facts ref node symbol → ¬ Traced ast facts ref node symbol →
      Found ast facts roots ref

end Spec

/-! ## The turns of the loop -/

variable {symbol : String} {node : NodeRef} {ref : NodeRef}

section Turns

variable {ast : ProcedureAst} {facts : List StateAccessFact}
  {reaching : NodeRef → String → List NodeRef}

theorem mem_nextUses {node ref : NodeRef} {symbol other : String} :
    (ref, other) ∈ nextUses ast facts reaching (node, symbol) ↔
      (ref ∈ reaching node symbol ∧ other ∈ symbolsUsedByNode ast facts ref ∧ other ≠ symbol) ∨
      (reaching node symbol = [] ∧ symbol ∉ parameterNames ast ∧
        declarationDefaultRef ast symbol = some ref ∧
        other ∈ symbolsUsedByNode ast facts ref) := by
  unfold nextUses
  cases hreaching : reaching node symbol with
  | nil =>
    by_cases hparameter : symbol ∈ parameterNames ast
    · simp [hparameter]
    · cases hdefault : declarationDefaultRef ast symbol with
      | none => simp [hparameter]
      | some d =>
        simp only [hparameter, if_false, List.mem_map, Prod.mk.injEq, List.not_mem_nil,
          false_and, not_false_eq_true, true_and, Option.some.injEq, false_or]
        constructor
        · rintro ⟨x, hx, rfl, rfl⟩
          exact ⟨rfl, hx⟩
        · rintro ⟨rfl, hx⟩
          exact ⟨other, hx, rfl, rfl⟩
  | cons first rest =>
    simp only [List.mem_flatMap, List.mem_map, List.mem_filter, decide_eq_true_eq, Prod.mk.injEq,
      reduceCtorEq, false_and, or_false]
    constructor
    · rintro ⟨d, hd, x, ⟨hx, hne⟩, rfl, rfl⟩
      exact ⟨hd, hx, hne⟩
    · rintro ⟨hd, hx, hne⟩
      exact ⟨ref, hd, other, ⟨hx, hne⟩, rfl, rfl⟩

/-- The node is among those a turn for this use adds. -/
def Finds (ast : ProcedureAst) (reaching : NodeRef → String → List NodeRef) (use : Use)
    (ref : NodeRef) : Prop :=
  ref ∈ reaching use.1 use.2 ∨
    reaching use.1 use.2 = [] ∧ use.2 ∉ parameterNames ast ∧
      declarationDefaultRef ast use.2 = some ref

theorem mem_foldl_localNodes {node ref : NodeRef} :
    ∀ {definitions : List NodeRef} {slice : Slice},
      ref ∈ (definitions.foldl (fun (slice : Slice) d =>
          { slice with
            localNodes := insert d slice.localNodes
            dependencyEdges := insert (symbol, d, node) slice.dependencyEdges }) slice).localNodes ↔
        ref ∈ slice.localNodes ∨ ref ∈ definitions
  | [], slice => by simp
  | d :: definitions, slice => by
      rw [List.foldl_cons, mem_foldl_localNodes, Finset.mem_insert, List.mem_cons]
      tauto

theorem foldl_parameterSources :
    ∀ {definitions : List NodeRef} {slice : Slice},
      (definitions.foldl (fun (slice : Slice) d => { slice with
            localNodes := insert d slice.localNodes
            dependencyEdges := insert (symbol, d, node) slice.dependencyEdges })
              slice).parameterSources
        = slice.parameterSources
  | [], _ => rfl
  | d :: definitions, slice => by
      rw [List.foldl_cons, foldl_parameterSources]

theorem mem_recordUse_localNodes {slice : Slice} {use : Use} :
    ref ∈ (recordUse ast reaching slice use).localNodes ↔
      ref ∈ slice.localNodes ∨ Finds ast reaching use ref := by
  unfold recordUse Finds
  cases hreaching : reaching use.1 use.2 with
  | nil =>
    by_cases hparameter : use.2 ∈ parameterNames ast
    · simp [hparameter]
    · cases hdefault : declarationDefaultRef ast use.2 with
      | none => simp [hparameter]
      | some d =>
        simp only [hparameter, if_false, Finset.mem_insert, List.not_mem_nil, not_false_eq_true,
          true_and, Option.some.injEq, false_or]
        tauto
  | cons first rest =>
    rw [mem_foldl_localNodes]
    simp

theorem mem_recordUse_parameterSources {slice : Slice} {use : Use} :
    symbol ∈ (recordUse ast reaching slice use).parameterSources ↔
      symbol ∈ slice.parameterSources ∨
        use.2 = symbol ∧ reaching use.1 use.2 = [] ∧ symbol ∈ parameterNames ast := by
  unfold recordUse
  cases hreaching : reaching use.1 use.2 with
  | nil =>
    by_cases hparameter : use.2 ∈ parameterNames ast
    · simp only [hparameter, if_true, Finset.mem_insert, true_and]
      constructor
      · rintro (rfl | h)
        · exact .inr ⟨rfl, hparameter⟩
        · exact .inl h
      · rintro (h | ⟨rfl, -⟩)
        · exact .inr h
        · exact .inl rfl
    · have hother : ∀ s, use.2 = s → s ∉ parameterNames ast := fun s hs => hs ▸ hparameter
      cases hdefault : declarationDefaultRef ast use.2 with
      | none =>
        simp only [hparameter, if_false, true_and]
        exact ⟨.inl, fun h => h.elim id fun h => absurd h.2 (hother symbol h.1)⟩
      | some d =>
        simp only [hparameter, if_false, true_and]
        exact ⟨.inl, fun h => h.elim id fun h => absurd h.2 (hother symbol h.1)⟩
  | cons first rest =>
    rw [foldl_parameterSources]
    simp

end Turns

/-! ## The slice is what the trace finds -/

section Result

variable {ast : ProcedureAst} {facts : List StateAccessFact}

variable (ast facts) in
/-- The definitions that reach a use, as the slicer looks them up. -/
abbrev reachingAt : NodeRef → String → List NodeRef :=
  definitionsReaching (.build ast) (definitionFlow ast facts).solveFlow.incoming

variable {symbol : String}

theorem mem_reachingAt {ref node : NodeRef} :
    ref ∈ reachingAt ast facts node symbol ↔ Traced ast facts ref node symbol := by
  unfold reachingAt definitionsReaching Traced
  by_cases hnode : CfgRef.ast node ∈ (ControlFlowGraph.build ast).nodes
  · rw [if_pos hnode, Finset.mem_sort, Finset.mem_biUnion,
      ← FlowProblem.mem_incoming_iff (not_edge_to_entry ast facts)]
    constructor
    · rintro ⟨⟨key, value⟩, hx, href⟩
      obtain ⟨hincoming, rfl⟩ := Finset.mem_filter.1 hx
      cases value with
      | parameter name => cases href
      | node d =>
        obtain rfl := Finset.mem_singleton.1 href
        exact ⟨hnode, hincoming⟩
    · rintro ⟨-, hx⟩
      exact ⟨(symbol, .node ref), Finset.mem_filter.2 ⟨hx, rfl⟩, Finset.mem_singleton.2 rfl⟩
  · rw [if_neg hnode]
    exact ⟨fun h => (nomatch h), fun h => absurd h.1 hnode⟩

theorem reachingAt_eq_nil :
    reachingAt ast facts node symbol = [] ↔ ∀ ref, ¬ Traced ast facts ref node symbol := by
  rw [List.eq_nil_iff_forall_not_mem]
  exact forall_congr' fun ref => not_congr mem_reachingAt

theorem mem_initialDefs {entry : String × DefinitionRef} (h : entry ∈ initialDefs ast) :
    entry ∈ initialEntries ast := by
  have hfold : ∀ (entries table : List (String × DefinitionRef)),
      entry ∈ entries.foldl setKey table → entry ∈ table ∨ entry ∈ entries := by
    intro entries
    induction entries with
    | nil => exact fun table h => .inl h
    | cons e entries ih =>
      intro table h
      rcases ih (setKey table e) h with h | h
      · rcases List.mem_cons.1 h with rfl | h
        · exact .inr List.mem_cons_self
        · exact .inl (List.mem_filter.1 h).1
      · exact .inr (List.mem_cons_of_mem _ h)
  exact (hfold _ [] h).resolve_left fun h => nomatch h

theorem mem_declaredDefaults
    (h : (symbol, ref) ∈ declaredDefaults ast) : ref ∈ (statementsOf ast.body).map Prod.fst := by
  obtain ⟨s, hs, heq⟩ := List.mem_filterMap.1 h
  have href : s.1 = ref := by
    revert heq
    split
    · intro heq
      obtain ⟨name, -, hpair⟩ := Option.map_eq_some_iff.1 heq
      exact (Prod.mk.inj hpair).2
    · exact fun heq => nomatch heq
  exact List.mem_map.2 ⟨s, (List.mem_filter.1 hs).1, href⟩

theorem generated_source {n : CfgRef}
    (h : (definitionFlow ast facts).Generated (symbol, .node ref) n) :
    ref ∈ facts.map StateAccessFact.sourceNodeRef := by
  induction h with
  | @gen n m hn hx he =>
    cases n with
    | ast source =>
      obtain ⟨s, hs, hpair⟩ := List.mem_map.1 (List.mem_toFinset.1 hx)
      cases hpair
      obtain ⟨f, hf, -⟩ := List.mem_map.1 hs
      obtain ⟨hf, hsource⟩ := List.mem_filter.1 hf
      simp only [Bool.and_eq_true, decide_eq_true_eq] at hsource
      exact List.mem_map.2 ⟨f, hf, hsource.2⟩
    | entry => cases hx
    | normalExit => cases hx
    | exceptionalExit => cases hx
    | handlerExit => cases hx
  | step _ _ _ ih => exact ih

variable {roots : List NodeRef}

theorem Traced.mem_traceNodes {ref node : NodeRef}
    (h : Traced ast facts ref node symbol) : ref ∈ traceNodes ast facts roots := by
  unfold traceNodes
  rcases h.2 with ⟨hinit, -⟩ | hgen
  · apply List.mem_append_right
    rcases List.mem_append.1 (mem_initialDefs (List.mem_toFinset.1 hinit)) with hp | hd
    · obtain ⟨p, -, hpair⟩ := List.mem_map.1 hp
      cases hpair
    · obtain ⟨d, hdeclared, hpair⟩ := List.mem_map.1 hd
      cases hpair
      exact mem_declaredDefaults hdeclared
  · exact List.mem_append_left _ (List.mem_append_right _ (generated_source hgen))

theorem mem_traceNodes_of_default
    (h : declarationDefaultRef ast symbol = some ref) : ref ∈ traceNodes ast facts roots :=
  List.mem_append_right _ (mem_declaredDefaults (mem_of_lookup h))

/-! ### The loop -/

section Loop

variable (effects : List EffectCandidate) (bundle : BehaviorEffectBundle)

variable (ast) in
/-- The statements and conditions a slice starts from. -/
abbrev sliceRoots : List NodeRef :=
  seedNodes effects bundle ++ controlPredicateNodes ast bundle.controllingRegionRef

theorem mem_usesOf {nodes : List NodeRef} :
    (node, symbol) ∈ (nodes.flatMap fun ref =>
      (symbolsUsedByNode ast facts ref).map fun s => (ref, s)) ↔
      node ∈ nodes ∧ symbol ∈ symbolsUsedByNode ast facts node := by
  simp only [List.mem_flatMap, List.mem_map, Prod.mk.injEq]
  constructor
  · rintro ⟨ref, href, s, hs, rfl, rfl⟩
    exact ⟨href, hs⟩
  · rintro ⟨hnode, hs⟩
    exact ⟨node, hnode, symbol, hs, rfl, rfl⟩

theorem demanded_of_leads {use use' : Use} (hstart : Demanded ast facts roots use.1 use.2)
    (h : Relation.ReflTransGen
      (fun a b => b ∈ nextUses ast facts (reachingAt ast facts) a) use use') :
    Demanded ast facts roots use'.1 use'.2 := by
  induction h with
  | refl => exact hstart
  | tail _ hstep ih =>
    rcases mem_nextUses.1 hstep with ⟨hreach, hother, hne⟩ | ⟨hnil, hparameter, hdefault, hother⟩
    · exact .definition ih (mem_reachingAt.1 hreach) hother hne
    · exact .default ih (reachingAt_eq_nil.1 hnil) hparameter hdefault hother

theorem leads_of_demanded (h : Demanded ast facts roots node symbol) :
    ∃ start ∈ (roots.flatMap fun ref => (symbolsUsedByNode ast facts ref).map fun s => (ref, s)),
      Relation.ReflTransGen (fun a b => b ∈ nextUses ast facts (reachingAt ast facts) a) start
        (node, symbol) := by
  induction h with
  | root hnode hsymbol => exact ⟨_, mem_usesOf.2 ⟨hnode, hsymbol⟩, .refl⟩
  | definition _ hreach hother hne ih =>
    obtain ⟨start, hstart, hpath⟩ := ih
    exact ⟨start, hstart,
      hpath.tail (mem_nextUses.2 (.inl ⟨mem_reachingAt.2 hreach, hother, hne⟩))⟩
  | default _ hnone hparameter hdefault hother ih =>
    obtain ⟨start, hstart, hpath⟩ := ih
    exact ⟨start, hstart, hpath.tail
      (mem_nextUses.2 (.inr ⟨reachingAt_eq_nil.2 hnone, hparameter, hdefault, hother⟩))⟩

variable (ast facts) in
/-- What the loop has collected after the uses `visited`. -/
structure Collected (roots : List NodeRef) (visited : List Use) (slice : Slice) : Prop where
  nodes : ∀ ref, ref ∈ slice.localNodes ↔
    ref ∈ roots ∨ ∃ use ∈ visited, Finds ast (reachingAt ast facts) use ref
  parameters : ∀ symbol, symbol ∈ slice.parameterSources ↔
    ∃ use ∈ visited, use.2 = symbol ∧ reachingAt ast facts use.1 use.2 = [] ∧
      symbol ∈ parameterNames ast

theorem Collected.record (visited : List Use) (slice : Slice) (use : Use)
    (h : Collected ast facts roots visited slice) :
    Collected ast facts roots (use :: visited)
      (recordUse ast (reachingAt ast facts) slice use) := by
  constructor
  · intro ref
    rw [mem_recordUse_localNodes, h.nodes, List.exists_mem_cons_iff]
    exact or_assoc.trans (or_congr_right or_comm)
  · intro symbol
    rw [mem_recordUse_parameterSources, h.parameters, List.exists_mem_cons_iff]
    exact or_comm

/-- **The loop visits the demanded uses and collects what they find.** -/
theorem sliceBundle_collected :
    ∃ visited : List Use,
      (∀ node symbol, (node, symbol) ∈ visited ↔
        Demanded ast facts (sliceRoots ast effects bundle) node symbol) ∧
      Collected ast facts (sliceRoots ast effects bundle) visited
        (sliceBundle ast facts (.build ast) effects bundle) := by
  unfold sliceBundle sliceRoots
  simp only
  generalize seedNodes effects bundle ++
    controlPredicateNodes ast bundle.controllingRegionRef = roots
  generalize hdomain : ((traceNodes ast facts roots).flatMap fun ref =>
    (symbolsUsedByNode ast facts ref).map fun s => (ref, s)).dedup = domain
  have hmem : ∀ node symbol, (node, symbol) ∈ domain.toFinset ↔
      node ∈ traceNodes ast facts roots ∧ symbol ∈ symbolsUsedByNode ast facts node := by
    intro node symbol
    rw [List.mem_toFinset, ← hdomain, List.mem_dedup, mem_usesOf]
  have hclosed : ∀ x ∈ domain.toFinset, ∀ y ∈ nextUses ast facts (reachingAt ast facts) x,
      y ∈ domain.toFinset := by
    rintro x - ⟨ref, other⟩ hy
    rw [hmem]
    rcases mem_nextUses.1 hy with ⟨hreach, hother, -⟩ | ⟨-, -, hdefault, hother⟩
    · exact ⟨(mem_reachingAt.1 hreach).mem_traceNodes, hother⟩
    · exact ⟨mem_traceNodes_of_default hdefault, hother⟩
  have hqueue : ∀ x ∈ (roots.flatMap fun ref =>
      (symbolsUsedByNode ast facts ref).map fun s => (ref, s)), x ∈ domain.toFinset := by
    rintro ⟨node, symbol⟩ hx
    obtain ⟨hnode, hsymbol⟩ := mem_usesOf.1 hx
    exact (hmem _ _).2 ⟨List.mem_append_left _ (List.mem_append_left _ hnode), hsymbol⟩
  have hturns : pendingTurns (nextUses ast facts (reachingAt ast facts)) domain.toFinset
      (roots.flatMap fun ref => (symbolsUsedByNode ast facts ref).map fun s => (ref, s)) [] ≤
      (roots.flatMap fun ref => (symbolsUsedByNode ast facts ref).map fun s => (ref, s)).length +
        (domain.map fun u => (nextUses ast facts (reachingAt ast facts) u).length).sum := by
    unfold pendingTurns
    have hnodup : domain.Nodup := hdomain ▸ List.nodup_dedup _
    rw [List.toFinset_nil, Finset.sdiff_empty, List.sum_toFinset _ hnodup]
  have hstart : Collected ast facts roots [] ⟨roots.toFinset, ∅, ∅, ∅⟩ := by
    constructor
    · intro ref
      simp
    · intro symbol
      simp
  refine ⟨_, fun node symbol => ?_, traverse_invariant
    (P := fun visited slice => Collected ast facts roots visited slice) Collected.record hstart⟩
  · rw [mem_traverse_iff pushes_queue domain.toFinset hclosed hqueue hturns]
    constructor
    · rintro ⟨⟨start, first⟩, hstart, hpath⟩
      obtain ⟨hnode, hsymbol⟩ := mem_usesOf.1 hstart
      exact demanded_of_leads (.root hnode hsymbol) hpath
    · exact leads_of_demanded

theorem mem_localNodes_iff :
    ref ∈ (sliceBundle ast facts (.build ast) effects bundle).localNodes ↔
      Found ast facts (sliceRoots ast effects bundle) ref := by
  obtain ⟨visited, hvisited, hcollected⟩ := @sliceBundle_collected ast facts effects bundle
  rw [hcollected.nodes]
  constructor
  · rintro (hroot | ⟨⟨node, symbol⟩, huse, hreach | ⟨hnil, hparameter, hdefault⟩⟩)
    · exact .root hroot
    · exact .definition ((hvisited node symbol).1 huse) (mem_reachingAt.1 hreach)
    · exact .default ((hvisited node symbol).1 huse) (reachingAt_eq_nil.1 hnil) hparameter hdefault
  · intro h
    cases h with
    | root h => exact .inl h
    | definition h hreach =>
      exact .inr ⟨_, (hvisited _ _).2 h, .inl (mem_reachingAt.2 hreach)⟩
    | default h hnone hparameter hdefault =>
      exact .inr ⟨_, (hvisited _ _).2 h, .inr ⟨reachingAt_eq_nil.2 hnone, hparameter, hdefault⟩⟩

theorem mem_parameterSources_iff :
    symbol ∈ (sliceBundle ast facts (.build ast) effects bundle).parameterSources ↔
      Noted ast facts (sliceRoots ast effects bundle) symbol := by
  obtain ⟨visited, hvisited, hcollected⟩ := @sliceBundle_collected ast facts effects bundle
  rw [hcollected.parameters]
  constructor
  · rintro ⟨⟨node, _⟩, huse, rfl, hnil, hparameter⟩
    exact ⟨hparameter, node, (hvisited _ _).1 huse, reachingAt_eq_nil.1 hnil⟩
  · rintro ⟨hparameter, node, hdemanded, hnone⟩
    exact ⟨(node, symbol), (hvisited _ _).2 hdemanded, rfl, reachingAt_eq_nil.2 hnone, hparameter⟩

end Loop

/-! ## Closed slices -/

variable {symbol : String}

theorem Demanded.used (h : Demanded ast facts roots node symbol) :
    Found ast facts roots node ∧ symbol ∈ symbolsUsedByNode ast facts node := by
  cases h with
  | root hnode hsymbol => exact ⟨.root hnode, hsymbol⟩
  | definition h hreach hother _ => exact ⟨.definition h hreach, hother⟩
  | default h hnone hparameter hdefault hother =>
    exact ⟨.default h hnone hparameter hdefault, hother⟩

/-- A use in the slice that is not traced is that of a definition's own symbol. -/
theorem Found.untraced
    (h : Found ast facts roots ref) (huse : symbol ∈ symbolsUsedByNode ast facts ref)
    (hnot : ¬ Demanded ast facts roots ref symbol) :
    ∃ node, Demanded ast facts roots node symbol ∧ Traced ast facts ref node symbol := by
  cases h with
  | root hroot => exact absurd (.root hroot huse) hnot
  | @definition node _ other h hreach =>
    by_cases heq : symbol = other
    · subst heq
      exact ⟨node, h, hreach⟩
    · exact absurd (.definition h hreach huse heq) hnot
  | default h hnone hparameter hdefault =>
    exact absurd (.default h hnone hparameter hdefault huse) hnot

/-- A slice is closed under data dependence just when the trace loses nothing. -/
theorem slice_closed_iff (ast : ProcedureAst) (facts : List StateAccessFact)
    (effects : List EffectCandidate) (bundle : BehaviorEffectBundle) :
    ClosedUnderDependence ast facts (sliceBundle ast facts (.build ast) effects bundle) ↔
      NothingLost ast facts (sliceRoots ast effects bundle) := by
  unfold ClosedUnderDependence
  simp only [mem_localNodes_iff, mem_parameterSources_iff]
  constructor
  · intro hclosed
    refine ⟨fun node symbol ref h hreach huse _ => ?_, fun node symbol ref h _ hcaller => ?_,
      fun node symbol ref h hreach _ => ?_⟩
    · exact hclosed ref (.definition h hreach) symbol huse
    · exact (hclosed node h.used.1 symbol h.used.2).2 hcaller
    · exact (hclosed node h.used.1 symbol h.used.2).1 ref hreach
  · intro hlost node hnode symbol huse
    by_cases hdemanded : Demanded ast facts (sliceRoots ast effects bundle) node symbol
    · refine ⟨fun ref hreach => ?_, fun hcaller => ?_⟩
      · by_cases htraced : Traced ast facts ref node symbol
        · exact .definition hdemanded htraced
        · exact hlost.redeclared node symbol ref hdemanded hreach htraced
      · by_cases hnone : ∀ ref, ¬ Traced ast facts ref node symbol
        · obtain ⟨-, ⟨p, hp, rfl, -⟩, -⟩ := hcaller
          exact ⟨List.mem_map.2 ⟨p, hp, rfl⟩, node, hdemanded, hnone⟩
        · push Not at hnone
          obtain ⟨ref, href⟩ := hnone
          exact hlost.mixed node symbol ref hdemanded href hcaller
    · obtain ⟨user, huser, hreach⟩ := hnode.untraced huse hdemanded
      exact hlost.selfReads user symbol node huser hreach huse hdemanded

/-! ## The least slice -/

variable (ast facts) in
/-- A set of nodes with the seeds and with all that the uses in it may take their values from: the
definitions that reach them and the declarations with a default. -/
structure Encloses (roots : List NodeRef) (K : NodeRef → Prop) : Prop where
  seeds : ∀ ref ∈ roots, K ref
  definitions : ∀ node symbol ref, K node → symbol ∈ symbolsUsedByNode ast facts node →
    DefinitionReaches ast facts ref node symbol → K ref
  defaults : ∀ node symbol ref, K node → symbol ∈ symbolsUsedByNode ast facts node →
    declarationDefaultRef ast symbol = some ref → K ref

theorem Traced.definitionReaches {ref node : NodeRef}
    (h : Traced ast facts ref node symbol) : DefinitionReaches ast facts ref node symbol := by
  refine ⟨h.1, ?_⟩
  rcases h.2 with ⟨hinit, hclear⟩ | hgenerated
  · right
    refine ⟨?_, hclear⟩
    rcases List.mem_append.1 (mem_initialDefs (List.mem_toFinset.1 hinit)) with hp | hd
    · obtain ⟨p, -, hpair⟩ := List.mem_map.1 hp
      cases hpair
    · obtain ⟨d, hdeclared, hpair⟩ := List.mem_map.1 hd
      cases hpair
      exact hdeclared
  · exact .inl hgenerated

theorem Demanded.enclosed {K : NodeRef → Prop} (hK : Encloses ast facts roots K)
    (h : Demanded ast facts roots node symbol) :
    K node ∧ symbol ∈ symbolsUsedByNode ast facts node := by
  refine ⟨?_, h.used.2⟩
  induction h with
  | root hnode _ => exact hK.seeds _ hnode
  | definition h hreach _ _ ih => exact hK.definitions _ _ _ ih h.used.2 hreach.definitionReaches
  | default h _ _ hdefault _ ih => exact hK.defaults _ _ _ ih h.used.2 hdefault

/-- **A slice holds nothing it need not.** It lies within every set that has its seeds and what the
uses in the set may depend on, and its parameters are used there. -/
theorem slice_enclosed {effects : List EffectCandidate} {bundle : BehaviorEffectBundle}
    {K : NodeRef → Prop} (hK : Encloses ast facts (sliceRoots ast effects bundle) K) :
    (∀ ref ∈ (sliceBundle ast facts (.build ast) effects bundle).localNodes, K ref) ∧
      ∀ symbol ∈ (sliceBundle ast facts (.build ast) effects bundle).parameterSources,
        symbol ∈ parameterNames ast ∧ ∃ node, K node ∧
        symbol ∈ symbolsUsedByNode ast facts node := by
  constructor
  · intro ref href
    rw [mem_localNodes_iff] at href
    cases href with
    | root h => exact hK.seeds ref h
    | definition h hreach =>
      obtain ⟨hnode, huse⟩ := h.enclosed hK
      exact hK.definitions _ _ _ hnode huse hreach.definitionReaches
    | default h _ _ hdefault =>
      obtain ⟨hnode, huse⟩ := h.enclosed hK
      exact hK.defaults _ _ _ hnode huse hdefault
  · intro symbol hsymbol
    obtain ⟨hparameter, node, hdemanded, -⟩ := mem_parameterSources_iff effects bundle |>.mp hsymbol
    exact ⟨hparameter, node, hdemanded.enclosed hK⟩

/-! ## A counter -/

/-- `SET V = P_A; SET V = V + 1; INSERT INTO T VALUES (V);` -/
def countUp : ProcedureAst where
  nodeId := "count-up"
  parameters := [⟨"P_A", .in⟩]
  commitOnReturn := none
  body :=
    [.simple "declare" { kind := .declareVariable, text := "DECLARE V INT;" },
      .simple "first" { kind := .set, text := "SET V = P_A;", assignment := some ⟨"V", "P_A"⟩ },
      .simple "again" { kind := .set, text := "SET V = V + 1;", assignment := some ⟨"V", "V + 1"⟩ },
      .simple "insert" { kind := .dml, text := "INSERT INTO T VALUES (V);" }]
  distinct := by decide

def countUpFacts : List StateAccessFact :=
  [⟨"V", .define, "first"⟩, ⟨"P_A", .use, "first"⟩, ⟨"V", .define, "again"⟩, ⟨"V", .use, "again"⟩]

def insertEffect : EffectCandidate where
  effectId := ⟨.dml, "insert", some "T", none, .committedEffect⟩
  observability := .committedEffect

def insertBundle : BehaviorEffectBundle where
  bundleId := ⟨.effectRegion "insert", "count-up", insertEffect.effectId, [insertEffect.effectId]⟩
  primaryEffectRef := insertEffect.effectId
  effectMembers := [⟨insertEffect.effectId, .primary⟩]
  transactionRegionRef := "count-up"
  controllingRegionRef := .effectRegion "insert"
  actionScope := .procedureInvocation
  actionScopeRef := none
  orderingEdges := []
  bundleCompleteness := .complete
  evidenceRefs := ["insert"]

/-- The first assignment reaches the second, which is in the slice and reads `V`, but is not in
it. -/
theorem countUp_slice_not_closed :
    ¬ ClosedUnderDependence countUp countUpFacts
      (sliceBundle countUp countUpFacts (.build countUp) [insertEffect] insertBundle) := by
  have hslice : "again" ∈ (sliceBundle countUp countUpFacts (.build countUp) [insertEffect]
        insertBundle).localNodes ∧
      "first" ∉ (sliceBundle countUp countUpFacts (.build countUp) [insertEffect]
        insertBundle).localNodes ∧
      "V" ∈ symbolsUsedByNode countUp countUpFacts "again" ∧
      CfgRef.ast "again" ∈ (ControlFlowGraph.build countUp).nodes := by
    decide +kernel
  have hflow : (definitionFlow countUp countUpFacts).Generated ("V", .node "first")
    (.ast "again") := by
    apply FlowProblem.Generated.gen (n := .ast "first")
    · exact .step .entry (by decide)
    · decide
    · decide
  intro hclosed
  exact hslice.2.1
    ((hclosed "again" hslice.1 "V" hslice.2.2.1).1 "first" ⟨hslice.2.2.2, .inl hflow⟩)

/-- The declaration has no default, so it is in no slice. -/
theorem countUp_declaration_not_sliced :
    "declare" ∉
    (sliceBundle countUp countUpFacts (.build countUp) [insertEffect] insertBundle).localNodes := by
  intro hmem
  have hdefaults : declaredDefaults countUp = [] := by decide +kernel
  refine
    (@slice_enclosed countUp countUpFacts [insertEffect] insertBundle (· ≠ "declare")
      ⟨?_, ?_, ?_⟩).1
    _ hmem rfl
  · decide +kernel
  · intro node symbol ref _ _ hreach
    rcases hreach.2 with hgenerated | ⟨hdeclared, -⟩
    · exact (by decide : ∀ r ∈ countUpFacts.map StateAccessFact.sourceNodeRef, r ≠ "declare") _
        (generated_source hgenerated)
    · rw [hdefaults] at hdeclared
      cases hdeclared
  · intro node symbol ref _ _ hdefault
    have hdeclared := mem_of_lookup hdefault
    rw [hdefaults] at hdeclared
    cases hdeclared

end Result

end AtlasDb.Analysis.Slicing
