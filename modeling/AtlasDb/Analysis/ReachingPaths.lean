import AtlasDb.Analysis.Solver

/-!
# Reaching definitions and paths

What the solver reports at a node is what some path of the graph brings there: a definition that
takes effect along an edge of the path, such that no other definition of its symbol takes effect
behind that edge (`definitionsAtCfg_iff_path`). That nothing is missed is `solve_closed`, followed
along the path; that nothing is made up is an invariant of the loop (`Founded`).
-/

namespace AtlasDb.Analysis

open Core Lib Parsing

/-! ## Paths -/

inductive EdgePath (edges : List CfgEdge) : CfgRef → List CfgEdge → CfgRef → Prop where
  | nil (node : CfgRef) : EdgePath edges node [] node
  | cons {e : CfgEdge} {es : List CfgEdge} {node : CfgRef} (he : e ∈ edges)
      (h : EdgePath edges e.target es node) : EdgePath edges e.source (e :: es) node

namespace EdgePath

variable {edges : List CfgEdge} {first last : CfgRef} {es fs : List CfgEdge} {e : CfgEdge}

theorem snoc (h : EdgePath edges first es e.source) (he : e ∈ edges) :
    EdgePath edges first (es ++ [e]) e.target := by
  generalize hlast : e.source = node at h
  induction h with
  | nil node =>
    rw [← hlast]
    exact .cons he (.nil _)
  | cons hf _ ih => exact .cons hf (ih hlast)

theorem cons_inv (h : EdgePath edges first (e :: es) last) :
    e.source = first ∧ e ∈ edges ∧ EdgePath edges e.target es last := by
  cases h with
  | cons he h => exact ⟨rfl, he, h⟩

theorem split (h : EdgePath edges first (es ++ fs) last) :
    ∃ node, EdgePath edges first es node ∧ EdgePath edges node fs last := by
  induction es generalizing first with
  | nil => exact ⟨first, .nil first, h⟩
  | cons e es ih =>
    obtain ⟨rfl, he, h⟩ := h.cons_inv
    obtain ⟨node, hes, hfs⟩ := ih h
    exact ⟨node, .cons he hes, hfs⟩

end EdgePath

section Paths

variable (ast : ProcedureAst) (cfg : ControlFlowGraph)

/-- The definition of the symbol at the statement takes effect along the edge. -/
def TakesEffect (e : CfgEdge) (symbol : String) (ref : NodeRef) : Prop :=
  ∃ d ∈ edgeSites ast cfg e, d.symbolName = symbol ∧ d.sourceNodeRef = ref

/-- Some path from the entry to the node goes along an edge where the definition takes effect, and
along no edge after it where another definition of the symbol does. -/
def DefinitionArrives (symbol : String) (ref : NodeRef) (node : CfgRef) : Prop :=
  ∃ before e after, EdgePath cfg.edges .entry (before ++ e :: after) node ∧
    TakesEffect ast cfg e symbol ref ∧
      ∀ e' ∈ after, ∀ other, TakesEffect ast cfg e' symbol other → other = ref

end Paths

/-! ## Nothing is missed -/

variable {ref : NodeRef} {symbol : String}

section Complete

variable {ast : ProcedureAst} {cfg : ControlFlowGraph} {e : CfgEdge}

theorem edgeSites_source {d : DefinitionSite} (h : d ∈ edgeSites ast cfg e) :
    e.source = .ast d.sourceNodeRef := by
  unfold edgeSites at h
  split at h
  · next ref hsource =>
      split at h
      · cases h
      · split at h
        · cases h
        · rw [nodeDefinitionSites_source h]
          exact hsource
  · cases h

theorem edgeSites_same {d d' : DefinitionSite} (hd : d ∈ edgeSites ast cfg e)
    (hd' : d' ∈ edgeSites ast cfg e) : d'.sourceNodeRef = d.sourceNodeRef :=
  CfgRef.ast.inj ((edgeSites_source hd').symm.trans (edgeSites_source hd))

theorem applySites_replaced {sites : List DefinitionSite} {state : ReachingState}
    {d : DefinitionSite} (hall : ∀ d' ∈ sites, d'.sourceNodeRef = d.sourceNodeRef)
    (hd : d ∈ sites) (hin : (d.symbolName, ref) ∈ applySites sites state) :
    ref = d.sourceNodeRef := by
  induction sites generalizing state with
  | nil => cases hd
  | cons first sites ih =>
    obtain ⟨hfirst, hrest⟩ := List.forall_mem_cons.mp hall
    change _ ∈ applySites sites (_ :: _) at hin
    rcases List.mem_cons.mp hd with rfl | hd
    · rcases mem_applySites hin with hin | ⟨d', hd', heq⟩
      · rcases List.mem_cons.mp hin with heq | hin
        · exact (Prod.mk.inj heq).2
        · exact absurd rfl (of_decide_eq_true (List.mem_filter.mp hin).2)
      · rw [(Prod.mk.inj heq).2]
        exact hrest d' hd'
    · exact ih hrest hd hin

theorem mem_transferForEdge {incoming : ReachingState} :
    (symbol, ref) ∈ transferForEdge ast cfg incoming e ↔
      TakesEffect ast cfg e symbol ref ∨
        (symbol, ref) ∈ incoming ∧ ∀ other, ¬ TakesEffect ast cfg e symbol other := by
  rw [transferForEdge_eq]
  constructor
  · intro h
    by_cases hsymbol : ∃ d ∈ edgeSites ast cfg e, d.symbolName = symbol
    · obtain ⟨d, hd, rfl⟩ := hsymbol
      exact .inl ⟨d, hd, rfl, (applySites_replaced (fun d' hd' => edgeSites_same hd hd') hd h).symm⟩
    · rcases mem_applySites h with hold | ⟨d, hd, heq⟩
      · exact .inr ⟨hold, fun other ⟨d, hd, hname, _⟩ => hsymbol ⟨d, hd, hname⟩⟩
      · exact absurd ⟨d, hd, (Prod.mk.inj heq).1.symm⟩ hsymbol
  · rintro (⟨d, hd, rfl, rfl⟩ | ⟨hin, hnone⟩)
    · exact mem_applySites_self hd fun d' hd' => edgeSites_same hd hd'
    · exact mem_applySites_of_ne hin fun d hd heq => hnone _ ⟨d, hd, heq, rfl⟩

theorem reached_along {first last : CfgRef} {es : List CfgEdge} (hfirst : Reached ast cfg first)
    (h : EdgePath cfg.edges first es last) : Reached ast cfg last := by
  induction h with
  | nil _ => exact hfirst
  | cons he _ ih => exact ih (solve_closed he hfirst).1

theorem reaching_along {first last : CfgRef} {es : List CfgEdge}
    (hfirst : Reached ast cfg first) (hin : (symbol, ref) ∈ reaching ast cfg first)
    (h : EdgePath cfg.edges first es last)
    (hkeep : ∀ e ∈ es, ∀ other, TakesEffect ast cfg e symbol other → other = ref) :
    (symbol, ref) ∈ reaching ast cfg last := by
  induction h with
  | nil _ => exact hin
  | @cons e es _ he _ ih =>
    obtain ⟨htarget, hpass⟩ := solve_closed he hfirst
    refine ih htarget (hpass (mem_transferForEdge.2 ?_)) fun f hf =>
      hkeep f (List.mem_cons_of_mem _ hf)
    by_cases hmade : ∃ other, TakesEffect ast cfg e symbol other
    · obtain ⟨other, hother⟩ := hmade
      rw [hkeep e List.mem_cons_self other hother] at hother
      exact .inl hother
    · exact .inr ⟨hin, not_exists.1 hmade⟩

theorem DefinitionArrives.reaching {node : CfgRef} (h : DefinitionArrives ast cfg symbol ref node) :
    (symbol, ref) ∈ reaching ast cfg node := by
  obtain ⟨before, e, after, hpath, hmade, hkeep⟩ := h
  obtain ⟨source, hbefore, hrest⟩ := hpath.split
  obtain ⟨rfl, he, hafter⟩ := hrest.cons_inv
  obtain ⟨htarget, hpass⟩ := solve_closed he (reached_along reached_entry hbefore)
  exact reaching_along htarget (hpass (mem_transferForEdge.2 (.inl hmade))) hafter hkeep

end Complete

/-! ## Nothing is made up -/

section Sound

variable (ast : ProcedureAst) (cfg : ControlFlowGraph)

/-- Every fact arrives, and every node to be looked at can be reached. -/
structure Founded (s : SolverState) : Prop where
  edges : ∀ e σ, s.edgeState.lookup e = some σ → ∀ symbol ref, (symbol, ref) ∈ σ →
    DefinitionArrives ast cfg symbol ref e.target
  nodes : ∀ node σ, s.inState.lookup node = some σ → ∀ symbol ref, (symbol, ref) ∈ σ →
    DefinitionArrives ast cfg symbol ref node
  work : ∀ node ∈ s.work, ∃ es, EdgePath cfg.edges .entry es node

variable {ast cfg}

theorem DefinitionArrives.step {e : CfgEdge}
    (h : DefinitionArrives ast cfg symbol ref e.source) (he : e ∈ cfg.edges)
    (hkeep : ∀ other, ¬ TakesEffect ast cfg e symbol other) :
    DefinitionArrives ast cfg symbol ref e.target := by
  obtain ⟨before, f, after, hpath, hmade, hafter⟩ := h
  refine ⟨before, f, after ++ [e], ?_, hmade, fun g hg other hother => ?_⟩
  · have hsnoc := hpath.snoc he
    rwa [List.append_assoc, List.cons_append] at hsnoc
  · rcases List.mem_append.mp hg with hg | hg
    · exact hafter g hg other hother
    · rw [List.mem_singleton.mp hg] at hother
      exact absurd hother (hkeep other)

theorem Founded.merged {s : SolverState} (h : Founded ast cfg s) {node : CfgRef}
    (hin : (symbol, ref) ∈ mergePredecessorStates cfg.edges s.edgeState node) :
    DefinitionArrives ast cfg symbol ref node := by
  obtain ⟨e, -, rfl, σ, hlookup, hmem⟩ := mem_mergePredecessorStates.mp hin
  exact h.edges e σ hlookup symbol ref hmem

theorem Founded.propagate {s : SolverState} {merged : ReachingState} {e : CfgEdge}
    (h : Founded ast cfg s) (he : e ∈ cfg.edges)
    (hpath : ∃ es, EdgePath cfg.edges .entry es e.source)
    (hmerged : ∀ symbol ref, (symbol, ref) ∈ merged →
      DefinitionArrives ast cfg symbol ref e.source) :
    Founded ast cfg (propagate ast cfg merged s e) := by
  obtain ⟨es, hes⟩ := hpath
  unfold Analysis.propagate
  simp only
  split
  · exact h
  · refine ⟨fun f σ hlookup symbol ref hmem => ?_, h.nodes, fun node hnode => ?_⟩
    · rw [lookup_update] at hlookup
      split at hlookup
      · next heq =>
          subst heq
          obtain rfl := Option.some.inj hlookup
          rcases mem_transferForEdge.1 hmem with hmade | ⟨hin, hkeep⟩
          · exact ⟨es, f, [], hes.snoc he, hmade, fun _ hf => nomatch hf⟩
          · exact (hmerged symbol ref hin).step he hkeep
      · exact h.edges f σ hlookup symbol ref hmem
    · have hcases : node ∈ s.work ∨ node = e.target := by
        split at hnode
        · exact .inl hnode
        · exact (List.mem_append.mp hnode).imp_right List.mem_singleton.mp
      rcases hcases with hold | rfl
      · exact h.work node hold
      · exact ⟨_, hes.snoc he⟩

/-- A turn of the work list keeps what is known founded on paths. -/
theorem Founded.processNode {s : SolverState} {current : CfgRef} {work : List CfgRef}
    (h : Founded ast cfg s) (hwork : s.work = current :: work) :
    Founded ast cfg (processNode ast cfg s current work) := by
  have hpath : ∃ es, EdgePath cfg.edges .entry es current :=
    h.work current (hwork ▸ List.mem_cons_self)
  have hmerged : ∀ symbol ref,
      (symbol, ref) ∈ mergePredecessorStates cfg.edges s.edgeState current →
        DefinitionArrives ast cfg symbol ref current := fun _ _ hin => h.merged hin
  have hfold : ∀ (es : List CfgEdge) (t : SolverState),
      (∀ e ∈ es, e ∈ cfg.edges ∧ e.source = current) → Founded ast cfg t →
      Founded ast cfg (es.foldl
        (Analysis.propagate ast cfg (mergePredecessorStates cfg.edges s.edgeState current)) t) := by
    intro es
    induction es with
    | nil => exact fun t _ ht => ht
    | cons e es ih =>
      intro t hall ht
      obtain ⟨⟨he, hsource⟩, hrest⟩ := List.forall_mem_cons.mp hall
      exact ih _ hrest (ht.propagate he (hsource ▸ hpath) (hsource ▸ hmerged))
  refine hfold _ _ (fun e he => ?_) ⟨h.edges, fun node σ hlookup symbol ref hmem => ?_,
    fun node hnode => h.work node (hwork ▸ List.mem_cons_of_mem _ hnode)⟩
  · obtain ⟨hmem, hsource⟩ := List.mem_filter.mp he
    exact ⟨hmem, of_decide_eq_true hsource⟩
  · rw [lookup_update] at hlookup
    split at hlookup
    · next heq =>
        subst heq
        obtain rfl := Option.some.inj hlookup
        exact hmerged symbol ref hmem
    · exact h.nodes node σ hlookup symbol ref hmem

theorem Founded.solveLoop {fuel : Nat} {s : SolverState} (h : Founded ast cfg s) :
    Founded ast cfg (solveLoop ast cfg fuel s) := by
  induction fuel generalizing s with
  | zero => exact h
  | succ fuel ih =>
    cases hwork : s.work with
    | nil =>
      rw [Analysis.solveLoop, hwork]
      exact h
    | cons current work =>
      have hloop : Analysis.solveLoop ast cfg (fuel + 1) s =
          Analysis.solveLoop ast cfg fuel (Analysis.processNode ast cfg s current work) := by
        rw [Analysis.solveLoop, hwork]
        rfl
      rw [hloop]
      exact ih (h.processNode hwork)

theorem solve_founded : Founded ast cfg (solve ast cfg) := by
  refine Founded.solveLoop ⟨fun e σ h => ?_, fun node σ h => ?_, fun node hnode => ?_⟩
  · cases h
  · cases h
  · rw [List.mem_singleton.mp hnode]
    exact ⟨[], .nil _⟩

end Sound

/-! ## The result -/

theorem mem_reaching_iff {ast : ProcedureAst} {cfg : ControlFlowGraph} {node : CfgRef} :
    (symbol, ref) ∈ reaching ast cfg node ↔ DefinitionArrives ast cfg symbol ref node := by
  constructor
  · intro h
    unfold reaching at h
    cases hlookup : (solve ast cfg).inState.lookup node with
    | none =>
      rw [hlookup] at h
      cases h
    | some σ =>
      rw [hlookup] at h
      exact solve_founded.nodes node σ hlookup _ ref h
  · exact DefinitionArrives.reaching

/-- **Reaching definitions are exact.** The work list runs empty, and a definition is reported at a
node, an exit among them, just when some path brings it there. -/
theorem definitionsAtCfg_iff_path (ast : ProcedureAst) (cfg : ControlFlowGraph) :
    (solve ast cfg).work = [] ∧
      ∀ (node : CfgRef) (symbol : String) (ref : NodeRef),
        ref ∈ definitionsAtCfg (solve ast cfg) node symbol ↔
          DefinitionArrives ast cfg (Text.upperString symbol) ref node := by
  refine ⟨(solve_inv ast cfg).1, fun node symbol ref => ?_⟩
  rw [mem_definitionsAtCfg]
  exact mem_reaching_iff

end AtlasDb.Analysis
