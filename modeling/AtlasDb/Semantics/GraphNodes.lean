import AtlasDb.Semantics.Simulation

/-!
# The nodes of the graph

Both ends of every edge of a graph are nodes of it.
-/

namespace AtlasDb.Semantics

open Core Parsing Analysis

/-! ## Edges join nodes of the graph -/

def IsNode (ast : ProcedureAst) (r : CfgRef) : Prop := r ∈ (ControlFlowGraph.build ast).nodes

theorem isNode_entry (ast : ProcedureAst) : IsNode ast .entry := by
  simp [IsNode, ControlFlowGraph.build]

theorem isNode_normalExit (ast : ProcedureAst) : IsNode ast .normalExit := by
  simp [IsNode, ControlFlowGraph.build]

theorem isNode_exceptionalExit (ast : ProcedureAst) : IsNode ast .exceptionalExit := by
  simp [IsNode, ControlFlowGraph.build]

theorem isNode_ast {ast : ProcedureAst} {r : NodeRef} (h : r ∈ seqCfgRefs ast.body) :
    IsNode ast (.ast r) := by
  simp [IsNode, ControlFlowGraph.build, h]

/-- Both ends of an edge are nodes. -/
def Joins (ast : ProcedureAst) (e : CfgEdge) : Prop := IsNode ast e.source ∧ IsNode ast e.target

/-- The targets a jump may go to are nodes. -/
def StackIn (ast : ProcedureAst) (stack : List ControlContext) : Prop :=
  ∀ c ∈ stack, IsNode ast c.exitRef ∧ ∀ header ∈ c.loopHeader, IsNode ast header

section Ends

variable {ast : ProcedureAst}

theorem resolveControlTarget_mem {label : Option String} {iterate : Bool}
    {stack : List ControlContext} (hstack : StackIn ast stack) :
    IsNode ast (resolveControlTarget label iterate stack) := by
  unfold resolveControlTarget
  split
  · next context hfind =>
      obtain ⟨hexit, hheader⟩ := hstack context (List.mem_of_find?_eq_some hfind)
      split
      · cases hloop : context.loopHeader with
        | none => simpa using hexit
        | some header => simpa using hheader header hloop
      · exact hexit
  · split
    · exact isNode_normalExit ast
    · exact isNode_exceptionalExit ast

theorem statementEdge_joins {id : NodeRef} {stmt : Statement} {continuation : CfgRef}
    {stack : List ControlContext} (hid : IsNode ast (.ast id)) (hcont : IsNode ast continuation)
    (hstack : StackIn ast stack) : Joins ast (statementEdge id stmt continuation stack) := by
  refine ⟨by rwa [statementEdge_source], ?_⟩
  unfold statementEdge
  split
  · exact isNode_normalExit ast
  · exact isNode_exceptionalExit ast
  · exact isNode_exceptionalExit ast
  · exact resolveControlTarget_mem hstack
  · exact resolveControlTarget_mem hstack
  · exact hcont

theorem nodeEntry_mem {n : Node} {continuation : CfgRef}
    (hrefs : ∀ r ∈ nodeCfgRefs n, IsNode ast (.ast r)) (hcont : IsNode ast continuation) :
    IsNode ast (nodeEntry n continuation) := by
  unfold nodeEntry
  split
  · exact hcont
  · next hdecl =>
      refine hrefs _ ?_
      cases n with
      | simple id stmt => simp [nodeCfgRefs, hdecl, Node.id]
      | compound => exact List.mem_cons_self
      | ifRegion => exact List.mem_cons_self
      | loop => exact List.mem_cons_self
      | handler => exact List.mem_cons_self

theorem seqEntry_mem {code : List Node} {continuation : CfgRef}
    (hrefs : ∀ r ∈ seqCfgRefs code, IsNode ast (.ast r)) (hcont : IsNode ast continuation) :
    IsNode ast (seqEntry code continuation) := by
  induction code with
  | nil => exact hcont
  | cons n ns ih =>
    obtain ⟨hn, hns⟩ := List.forall_mem_append.mp hrefs
    exact nodeEntry_mem hn (ih hns)

mutual

/-- Every edge joins nodes of the graph. -/
theorem nodeEdges_join (n : Node) {continuation : CfgRef} {stack : List ControlContext}
    (hrefs : ∀ r ∈ nodeCfgRefs n, IsNode ast (.ast r)) (hcont : IsNode ast continuation)
    (hstack : StackIn ast stack) :
    ∀ e ∈ nodeEdges n continuation stack, Joins ast e := by
  intro e he
  cases n with
  | simple id stmt =>
    simp only [nodeEdges] at he
    split at he
    · cases he
    · next hdecl =>
        have hid : IsNode ast (.ast id) := hrefs id (by simp [nodeCfgRefs, hdecl])
        rw [List.mem_singleton.mp he]
        exact statementEdge_joins hid hcont hstack
  | compound id label text body =>
    obtain ⟨hid, hbody⟩ := List.forall_mem_cons.mp hrefs
    have hinner : StackIn ast (blockContext label continuation :: stack) :=
      List.forall_mem_cons.mpr ⟨⟨hcont, nofun⟩, hstack⟩
    rcases List.mem_append.mp he with he | he
    · exact seqEdges_join body hbody hcont hinner e he
    · rw [List.mem_singleton.mp he]
      exact ⟨hid, seqEntry_mem hbody hcont⟩
  | ifRegion id arms =>
    obtain ⟨hid, harms⟩ := List.forall_mem_cons.mp hrefs
    exact armEdges_join id 0 false false arms hid harms hcont hstack e he
  | loop id region body =>
    obtain ⟨hid, hbody⟩ := List.forall_mem_cons.mp hrefs
    have hinner : StackIn ast (loopContext id region continuation :: stack) := by
      refine List.forall_mem_cons.mpr ⟨⟨hcont, ?_⟩, hstack⟩
      rintro header ⟨⟩
      exact hid
    rcases List.mem_append.mp he with he | he
    · exact seqEdges_join body hbody hid hinner e he
    · rcases List.mem_cons.mp he with rfl | he
      · exact ⟨hid, seqEntry_mem hbody hid⟩
      · split at he
        · cases he
        · rw [List.mem_singleton.mp he]
          exact ⟨hid, hcont⟩
  | handler => cases he

theorem seqEdges_join (code : List Node) {continuation : CfgRef} {stack : List ControlContext}
    (hrefs : ∀ r ∈ seqCfgRefs code, IsNode ast (.ast r)) (hcont : IsNode ast continuation)
    (hstack : StackIn ast stack) : ∀ e ∈ seqEdges code continuation stack, Joins ast e := by
  intro e he
  cases code with
  | nil => cases he
  | cons n ns =>
    obtain ⟨hn, hns⟩ := List.forall_mem_append.mp hrefs
    rcases List.mem_append.mp he with he | he
    · exact seqEdges_join ns hns hcont hstack e he
    · exact nodeEdges_join n hn (seqEntry_mem hns hcont) hstack e he

theorem armEdges_join (id : NodeRef) (index : Nat) (hasElse always : Bool) (arms : List Arm)
    {continuation : CfgRef} {stack : List ControlContext} (hid : IsNode ast (.ast id))
    (hrefs : ∀ r ∈ armCfgRefs arms, IsNode ast (.ast r)) (hcont : IsNode ast continuation)
    (hstack : StackIn ast stack) :
    ∀ e ∈ armEdges id index hasElse always arms continuation stack, Joins ast e := by
  intro e he
  cases arms with
  | nil =>
    simp only [armEdges] at he
    split at he
    · rw [List.mem_singleton.mp he]
      exact ⟨hid, hcont⟩
    · cases he
  | cons a arms =>
    obtain ⟨header, body⟩ := a
    obtain ⟨harm, hrest⟩ := List.forall_mem_cons.mp hrefs
    obtain ⟨hbody, harms⟩ := List.forall_mem_append.mp hrest
    simp only [armEdges, List.mem_append, List.mem_cons] at he
    rcases he with he | rfl | he | he
    · exact seqEdges_join body hbody hcont hstack e he
    · exact ⟨harm, seqEntry_mem hbody hcont⟩
    · split at he
      · cases he
      · rw [List.mem_singleton.mp he]
        exact ⟨hid, harm⟩
    · exact armEdges_join id _ _ _ arms hid harms hcont hstack e he

end

/-! ## Handlers -/

variable {h : Handler}

mutual

theorem Node.handlers_cfgRefs (n : Node) (hh : h ∈ n.handlers) :
    h.id ∈ nodeCfgRefs n ∧ seqCfgRefs h.body ⊆ nodeCfgRefs n := by
  cases n with
  | simple => cases hh
  | compound id label text body =>
    obtain ⟨hid, hbody⟩ := handlersOf_cfgRefs body hh
    exact ⟨List.mem_cons_of_mem _ hid, List.subset_cons_of_subset _ hbody⟩
  | ifRegion id arms =>
    obtain ⟨hid, hbody⟩ := handlersOfArms_cfgRefs arms hh
    exact ⟨List.mem_cons_of_mem _ hid, List.subset_cons_of_subset _ hbody⟩
  | loop id region body =>
    obtain ⟨hid, hbody⟩ := handlersOf_cfgRefs body hh
    exact ⟨List.mem_cons_of_mem _ hid, List.subset_cons_of_subset _ hbody⟩
  | handler id region body =>
    rcases List.mem_cons.mp hh with rfl | hh
    · exact ⟨List.mem_cons_self, List.subset_cons_self _ _⟩
    · obtain ⟨hid, hbody⟩ := handlersOf_cfgRefs body hh
      exact ⟨List.mem_cons_of_mem _ hid, List.subset_cons_of_subset _ hbody⟩

theorem handlersOf_cfgRefs (code : List Node) (hh : h ∈ handlersOf code) :
    h.id ∈ seqCfgRefs code ∧ seqCfgRefs h.body ⊆ seqCfgRefs code := by
  cases code with
  | nil => cases hh
  | cons n ns =>
    rcases List.mem_append.mp hh with hh | hh
    · obtain ⟨hid, hbody⟩ := Node.handlers_cfgRefs n hh
      exact ⟨List.mem_append_left _ hid, List.subset_append_of_subset_left _ hbody⟩
    · obtain ⟨hid, hbody⟩ := handlersOf_cfgRefs ns hh
      exact ⟨List.mem_append_right _ hid, List.subset_append_of_subset_right _ hbody⟩

theorem handlersOfArms_cfgRefs (arms : List Arm) (hh : h ∈ handlersOfArms arms) :
    h.id ∈ armCfgRefs arms ∧ seqCfgRefs h.body ⊆ armCfgRefs arms := by
  cases arms with
  | nil => cases hh
  | cons a arms =>
    obtain ⟨header, body⟩ := a
    rcases List.mem_append.mp hh with hh | hh
    · obtain ⟨hid, hbody⟩ := handlersOf_cfgRefs body hh
      exact ⟨List.mem_cons_of_mem _ (List.mem_append_left _ hid),
        List.subset_cons_of_subset _ (List.subset_append_of_subset_left _ hbody)⟩
    · obtain ⟨hid, hbody⟩ := handlersOfArms_cfgRefs arms hh
      exact ⟨List.mem_cons_of_mem _ (List.mem_append_right _ hid),
        List.subset_cons_of_subset _ (List.subset_append_of_subset_right _ hbody)⟩

end

theorem isNode_handler (hh : h ∈ handlersOf ast.body) : IsNode ast (.ast h.id) :=
  isNode_ast (handlersOf_cfgRefs ast.body hh).1

theorem isNode_handlerFallthrough (hh : h ∈ handlersOf ast.body) :
    IsNode ast (handlerFallthrough h) := by
  unfold handlerFallthrough
  split
  · simp only [IsNode, ControlFlowGraph.build, List.mem_append, List.mem_map]
    exact .inr ⟨h, hh, rfl⟩
  · exact isNode_normalExit ast

theorem handlerEdges_join (hh : h ∈ handlersOf ast.body) :
    ∀ e ∈ handlerEdges h, Joins ast e := by
  have hrefs : ∀ r ∈ seqCfgRefs h.body, IsNode ast (.ast r) := fun r hr =>
    isNode_ast ((handlersOf_cfgRefs ast.body hh).2 hr)
  have hcont := isNode_handlerFallthrough hh
  intro e he
  rcases List.mem_append.mp he with he | he
  · exact seqEdges_join h.body hrefs hcont (fun _ h => by cases h) e he
  · rcases List.mem_cons.mp he with rfl | he
    · exact ⟨isNode_handler hh, seqEntry_mem hrefs hcont⟩
    · split at he
      · rw [List.mem_singleton.mp he]
        exact ⟨isNode_handler hh, hcont⟩
      · cases he

theorem isDeclaration_of_handlerApplies {region : HandlerRegion} {stmt : Statement} (id : NodeRef)
    (h : handlerApplies region stmt = true) : (Node.simple id stmt).isDeclaration = false := by
  by_contra hdecl
  have hkind : isNotFoundSource stmt.kind = false ∧ isSqlExceptionSource stmt.kind = false ∧
      stmt.kind ≠ .execute := by
    simp only [Node.isDeclaration] at hdecl
    split at hdecl <;> simp_all [isNotFoundSource, isSqlExceptionSource]
  obtain ⟨hfound, hexception, hexecute⟩ := hkind
  revert h
  unfold handlerApplies
  simp [hfound, hexception, hexecute]

theorem firstPerKey_subset (seen : List String) (handlers : List Handler) :
    firstPerKey seen handlers ⊆ handlers := by
  induction handlers generalizing seen with
  | nil => exact List.Subset.refl _
  | cons h hs ih =>
    unfold firstPerKey
    split
    · exact List.subset_cons_of_subset _ (ih seen)
    · exact List.cons_subset_cons _ (ih _)

variable {b : HandlerFlowBinding}

theorem sourceBindings_mem {successors : CfgRef → Option CfgRef} {scopes : List (List Handler)}
    {id : NodeRef} {stmt : Statement} (h : b ∈ sourceBindings successors scopes id stmt) :
    b.sourceRef ∈ nodeCfgRefs (.simple id stmt) ∧ b.handler ∈ scopes.flatten := by
  obtain ⟨hd, hbound, rfl⟩ := List.mem_map.mp h
  have hfiltered := firstPerKey_subset [] _ hbound
  obtain ⟨hmem, happlies⟩ := List.mem_filter.mp hfiltered
  exact ⟨by simp [nodeCfgRefs, isDeclaration_of_handlerApplies id happlies], hmem⟩

section Bindings

variable {successors : CfgRef → Option CfgRef}

mutual

theorem nodeBindings_mem {scopes : List (List Handler)} (n : Node)
    (h : b ∈ nodeBindings successors scopes n) :
    b.sourceRef ∈ nodeCfgRefs n ∧ (b.handler ∈ scopes.flatten ∨ b.handler ∈ n.handlers) := by
  cases n with
  | simple id stmt =>
    obtain ⟨hsource, hmem⟩ := sourceBindings_mem h
    exact ⟨hsource, .inl hmem⟩
  | compound id label text body =>
    obtain ⟨hsource, hmem⟩ := seqBindings_mem body h
    refine ⟨List.mem_cons_of_mem _ hsource, ?_⟩
    rw [List.flatten_cons, List.mem_append] at hmem
    rcases hmem with (hmem | hmem) | hmem
    · exact .inr (scopeHandlersOf_subset body hmem)
    · exact .inl hmem
    · exact .inr hmem
  | ifRegion id arms =>
    obtain ⟨hsource, hmem⟩ := armBindings_mem arms h
    exact ⟨List.mem_cons_of_mem _ hsource, hmem⟩
  | loop id region body =>
    obtain ⟨hsource, hmem⟩ := seqBindings_mem body h
    exact ⟨List.mem_cons_of_mem _ hsource, hmem⟩
  | handler => cases h

theorem seqBindings_mem {scopes : List (List Handler)} (code : List Node)
    (h : b ∈ seqBindings successors scopes code) :
    b.sourceRef ∈ seqCfgRefs code ∧ (b.handler ∈ scopes.flatten ∨ b.handler ∈ handlersOf code) := by
  cases code with
  | nil => cases h
  | cons n ns =>
    rcases List.mem_append.mp h with h | h
    · obtain ⟨hsource, hmem⟩ := nodeBindings_mem n h
      exact ⟨List.mem_append_left _ hsource, hmem.imp_right (List.mem_append_left _)⟩
    · obtain ⟨hsource, hmem⟩ := seqBindings_mem ns h
      exact ⟨List.mem_append_right _ hsource, hmem.imp_right (List.mem_append_right _)⟩

theorem armBindings_mem {scopes : List (List Handler)} (arms : List Arm)
    (h : b ∈ armBindings successors scopes arms) :
    b.sourceRef ∈ armCfgRefs arms ∧
    (b.handler ∈ scopes.flatten ∨ b.handler ∈ handlersOfArms arms) := by
  cases arms with
  | nil => cases h
  | cons a arms =>
    obtain ⟨header, body⟩ := a
    rcases List.mem_append.mp h with h | h
    · obtain ⟨hsource, hmem⟩ := seqBindings_mem body h
      exact ⟨List.mem_cons_of_mem _ (List.mem_append_left _ hsource),
        hmem.imp_right (List.mem_append_left _)⟩
    · obtain ⟨hsource, hmem⟩ := armBindings_mem arms h
      exact ⟨List.mem_cons_of_mem _ (List.mem_append_right _ hsource),
        hmem.imp_right (List.mem_append_right _)⟩

end

end Bindings

theorem cfgEdges_join : ∀ e ∈ cfgEdges ast, Joins ast e := by
  have hrefs : ∀ r ∈ seqCfgRefs ast.body, IsNode ast (.ast r) := fun r hr => isNode_ast hr
  intro e he
  rcases List.mem_append.mp he with he | he
  · rcases List.mem_append.mp he with he | he
    · exact seqEdges_join ast.body hrefs (isNode_normalExit ast) (fun _ h => by cases h) e he
    · rcases List.mem_cons.mp he with rfl | he
      · exact ⟨isNode_entry ast, seqEntry_mem hrefs (isNode_normalExit ast)⟩
      · obtain ⟨h, hh, he⟩ := List.mem_flatMap.mp he
        exact handlerEdges_join hh e he
  · obtain ⟨b, hb, rfl⟩ := List.mem_map.mp he
    obtain ⟨hsource, hmem⟩ := seqBindings_mem ast.body hb
    refine ⟨isNode_ast hsource, isNode_handler ?_⟩
    rcases hmem with hmem | hmem
    · exact scopeHandlersOf_subset ast.body (by simpa [procedureScopes] using hmem)
    · exact hmem

end Ends

end AtlasDb.Semantics
