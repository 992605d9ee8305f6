import AtlasDb.Analysis.Dataflow
import AtlasDb.Lib.Assoc
import Mathlib.Algebra.BigOperators.Group.Finset.Basic
import Mathlib.Algebra.Order.BigOperators.Group.Finset

/-!
# The solver of reaching definitions

`_solve` ends with a state that is closed under the edges: what reaches a node and is passed on
along an edge reaches the target of the edge (`solve_closed`). The state of an edge only grows and
holds definitions of the procedure, so the work list is empty when the fuel is used up. An edge to
something that is not among the nodes, on which the source ends in a `KeyError`, is followed here
like any other; `build` makes no such edge.
-/

namespace AtlasDb.Analysis

open Core Lib Parsing

/-! ## States as sets -/

theorem mem_insertAll {state added : ReachingState} {d : String × NodeRef} :
    d ∈ ReachingState.insertAll state added ↔ d ∈ state ∨ d ∈ added := by
  unfold ReachingState.insertAll
  induction added generalizing state with
  | nil => simp
  | cons a added ih =>
    rw [List.foldl_cons, ih]
    split
    · next ha =>
        constructor
        · rintro (h | h)
          · exact .inl h
          · exact .inr (List.mem_cons_of_mem _ h)
        · rintro (h | h)
          · exact .inl h
          · rcases List.mem_cons.mp h with rfl | h
            · exact .inl ha
            · exact .inr h
    · simp [or_assoc]

variable {state : ReachingState} {sites : List DefinitionSite}

theorem nodup_insertAll (added : ReachingState) (h : state.Nodup) :
    (ReachingState.insertAll state added).Nodup := by
  unfold ReachingState.insertAll
  induction added generalizing state with
  | nil => exact h
  | cons a added ih =>
    rw [List.foldl_cons]
    refine ih ?_
    split
    · exact h
    · next ha =>
        rw [List.nodup_append]
        refine ⟨h, List.nodup_singleton a, ?_⟩
        intro d hd b hb
        rw [List.mem_singleton.mp hb]
        rintro rfl
        exact ha hd

theorem mem_mergePredecessorStates {edges : List CfgEdge} {states : EdgeStates} {node : CfgRef}
    {d : String × NodeRef} :
    d ∈ mergePredecessorStates edges states node ↔
      ∃ e ∈ edges, e.target = node ∧ ∃ σ, states.lookup e = some σ ∧ d ∈ σ := by
  have hfold : ∀ (es : List CfgEdge) (acc : ReachingState),
      d ∈ es.foldl
      (fun merged e => ReachingState.insertAll merged ((states.lookup e).getD [])) acc ↔
        d ∈ acc ∨ ∃ e ∈ es, ∃ σ, states.lookup e = some σ ∧ d ∈ σ := by
    intro es
    induction es with
    | nil => simp
    | cons e es ih =>
      intro acc
      rw [List.foldl_cons, ih, mem_insertAll, or_assoc]
      refine or_congr_right ?_
      simp only [List.mem_cons, or_and_right, exists_or, exists_eq_left]
      refine or_congr_left ?_
      cases states.lookup e with
      | none => simp
      | some σ => simp
  unfold mergePredecessorStates
  rw [hfold]
  simp [and_assoc]

theorem nodup_mergePredecessorStates (edges : List CfgEdge) (states : EdgeStates) (node : CfgRef) :
    (mergePredecessorStates edges states node).Nodup := by
  have hfold : ∀ (es : List CfgEdge) (acc : ReachingState), acc.Nodup →
      (es.foldl (fun merged e => ReachingState.insertAll merged ((states.lookup e).getD []))
        acc).Nodup := by
    intro es
    induction es with
    | nil => exact fun _ h => h
    | cons e es ih => exact fun acc h => ih _ (nodup_insertAll _ h)
  exact hfold _ _ List.nodup_nil

/-! ## The transfer along an edge -/

/-- The definitions of a statement take effect one after the other. -/
def applySites (sites : List DefinitionSite) (state : ReachingState) : ReachingState :=
  sites.foldl (fun state d => (d.symbolName, d.sourceNodeRef) :: state.filter (·.1 ≠ d.symbolName))
    state

variable {a b : ReachingState}

theorem applySites_mono (h : a ⊆ b) :
    applySites sites a ⊆ applySites sites b := by
  unfold applySites
  induction sites generalizing a b with
  | nil => exact h
  | cons d sites ih =>
    refine ih ?_
    exact List.cons_subset_cons _ (List.filter_subset _ h)

theorem nodup_applySites (h : state.Nodup) :
    (applySites sites state).Nodup := by
  unfold applySites
  induction sites generalizing state with
  | nil => exact h
  | cons d sites ih =>
    refine ih (List.nodup_cons.mpr ⟨?_, h.filter _⟩)
    simp

theorem mem_applySites {p : String × NodeRef} (h : p ∈ applySites sites state) :
    p ∈ state ∨ ∃ d ∈ sites, p = (d.symbolName, d.sourceNodeRef) := by
  unfold applySites at h
  induction sites generalizing state with
  | nil => exact .inl h
  | cons d sites ih =>
    rcases ih h with h | ⟨d', hd', rfl⟩
    · rcases List.mem_cons.mp h with rfl | h
      · exact .inr ⟨d, List.mem_cons_self, rfl⟩
      · exact .inl (List.mem_filter.mp h).1
    · exact .inr ⟨d', List.mem_cons_of_mem _ hd', rfl⟩

theorem mem_applySites_of_ne
    {p : String × NodeRef} (hp : p ∈ state) (hne : ∀ d ∈ sites, d.symbolName ≠ p.1) :
    p ∈ applySites sites state := by
  unfold applySites
  induction sites generalizing state with
  | nil => exact hp
  | cons d sites ih =>
    obtain ⟨hd, hrest⟩ := List.forall_mem_cons.mp hne
    refine ih (List.mem_cons_of_mem _ (List.mem_filter.mpr ⟨hp, ?_⟩)) hrest
    simpa using hd.symm

variable {ref : NodeRef}

/-- The definitions of one statement are all made by it, so none of them removes another's. -/
theorem mem_applySites_keep {symbol : String}
    (h : (symbol, ref) ∈ state) (href : ∀ d ∈ sites, d.sourceNodeRef = ref) :
    (symbol, ref) ∈ applySites sites state := by
  unfold applySites
  induction sites generalizing state with
  | nil => exact h
  | cons d sites ih =>
    obtain ⟨hd, hrest⟩ := List.forall_mem_cons.mp href
    refine ih ?_ hrest
    by_cases hsymbol : d.symbolName = symbol
    · simp [hsymbol, hd]
    · exact List.mem_cons_of_mem _ (List.mem_filter.mpr ⟨h, by simpa using Ne.symm hsymbol⟩)

theorem mem_applySites_self
    {d : DefinitionSite} (hd : d ∈ sites) (href : ∀ d ∈ sites, d.sourceNodeRef = ref) :
    (d.symbolName, ref) ∈ applySites sites state := by
  induction sites generalizing state with
  | nil => cases hd
  | cons first sites ih =>
    obtain ⟨hfirst, hrest⟩ := List.forall_mem_cons.mp href
    show _ ∈ applySites sites _
    rcases List.mem_cons.mp hd with rfl | hd
    · exact mem_applySites_keep (by simp [hfirst]) hrest
    · exact ih hd hrest

theorem targetSites_source {kind : DefinitionKind} {text : Nat → String}
    {targets : List String} {d : DefinitionSite} (h : d ∈ targetSites ref kind text targets) :
    d.sourceNodeRef = ref := by
  obtain ⟨entry, -, rfl⟩ := List.mem_map.mp h
  rfl

theorem nodeDefinitionSites_source {stmt : Statement} {d : DefinitionSite}
    (h : d ∈ nodeDefinitionSites ref stmt) : d.sourceNodeRef = ref := by
  simp only [nodeDefinitionSites, List.mem_append] at h
  rcases h with ((h | h) | h) | h
  · split at h
    · rw [List.mem_singleton.mp h]
    · cases h
  · exact targetSites_source h
  · split at h
    · exact targetSites_source h
    · cases h
  · split at h
    · exact targetSites_source h
    · cases h

section Transfer

variable {ast : ProcedureAst} {cfg : ControlFlowGraph} {e : CfgEdge}

/-- What an edge does: the sites that take effect along it. -/
def edgeSites (ast : ProcedureAst) (cfg : ControlFlowGraph) (e : CfgEdge) : List DefinitionSite :=
  match e.source with
  | .ast ref =>
    match (cfgStatements ast cfg).lookup ref with
    | none => []
    | some stmt =>
      if e.kind = .handler && bindingCanFail stmt.kind then [] else nodeDefinitionSites ref stmt
  | _ => []

theorem transferForEdge_eq (incoming : ReachingState) :
    transferForEdge ast cfg incoming e = applySites (edgeSites ast cfg e) incoming := by
  unfold transferForEdge edgeSites
  cases e.source with
  | ast ref =>
    dsimp only
    cases (cfgStatements ast cfg).lookup ref with
    | none => rfl
    | some stmt =>
      dsimp only
      split <;> rfl
  | entry => rfl
  | normalExit => rfl
  | exceptionalExit => rfl
  | handlerExit => rfl

/-- The definitions of the procedure, as pairs. -/
def definitionPairs (ast : ProcedureAst) (cfg : ControlFlowGraph) : ReachingState :=
  (allDefinitionSites ast cfg).map fun d => (d.symbolName, d.sourceNodeRef)

theorem edgeSites_subset : edgeSites ast cfg e ⊆ allDefinitionSites ast cfg := by
  intro d hd
  unfold edgeSites at hd
  split at hd
  · next ref hsource =>
      split at hd
      · cases hd
      · next stmt hlookup =>
          split at hd
          · cases hd
          · exact List.mem_flatMap.mpr ⟨(ref, stmt), mem_of_lookup hlookup, hd⟩
  · cases hd

theorem transferForEdge_mono (h : a ⊆ b) :
    transferForEdge ast cfg a e ⊆ transferForEdge ast cfg b e := by
  rw [transferForEdge_eq, transferForEdge_eq]
  exact applySites_mono h

theorem nodup_transferForEdge {a : ReachingState} (h : a.Nodup) :
    (transferForEdge ast cfg a e).Nodup := by
  rw [transferForEdge_eq]
  exact nodup_applySites h

theorem transferForEdge_subset {a : ReachingState} (h : a ⊆ definitionPairs ast cfg) :
    transferForEdge ast cfg a e ⊆ definitionPairs ast cfg := by
  intro p hp
  rw [transferForEdge_eq] at hp
  rcases mem_applySites hp with hp | ⟨d, hd, rfl⟩
  · exact h hp
  · exact List.mem_map.mpr ⟨d, edgeSites_subset hd, rfl⟩

end Transfer

/-! ## One edge of a node -/

section Propagate

variable {ast : ProcedureAst} {cfg : ControlFlowGraph}

/-- The facts of an edge are definitions of the procedure. -/
def FactsOk (ast : ProcedureAst) (cfg : ControlFlowGraph) (states : EdgeStates) : Prop :=
  ∀ e σ, states.lookup e = some σ → σ.Nodup ∧ σ ⊆ definitionPairs ast cfg

/-- The facts of an edge are not more than what now arrives at its source would give. -/
def Grows (ast : ProcedureAst) (cfg : ControlFlowGraph) (states : EdgeStates) : Prop :=
  ∀ e σ, states.lookup e = some σ →
    σ ⊆ transferForEdge ast cfg (mergePredecessorStates cfg.edges states e.source) e

/-- Every edge has at least the facts it had. -/
def AtLeast (old new : EdgeStates) : Prop :=
  ∀ e σ, old.lookup e = some σ → ∃ σ', new.lookup e = some σ' ∧ σ ⊆ σ'

theorem AtLeast.refl (states : EdgeStates) : AtLeast states states := fun _ σ h =>
  ⟨σ, h, List.Subset.refl _⟩

theorem AtLeast.trans {a b c : EdgeStates} (hab : AtLeast a b) (hbc : AtLeast b c) :
    AtLeast a c := by
  intro e σ h
  obtain ⟨σ', h', hsub⟩ := hab e σ h
  obtain ⟨σ'', h'', hsub'⟩ := hbc e σ' h'
  exact ⟨σ'', h'', List.Subset.trans hsub hsub'⟩

theorem AtLeast.merge {a b : EdgeStates} (h : AtLeast a b) (edges : List CfgEdge) (node : CfgRef) :
    mergePredecessorStates edges a node ⊆ mergePredecessorStates edges b node := by
  intro d hd
  rw [mem_mergePredecessorStates] at hd ⊢
  obtain ⟨e, he, htarget, σ, hlookup, hmem⟩ := hd
  obtain ⟨σ', hlookup', hsub⟩ := h e σ hlookup
  exact ⟨e, he, htarget, σ', hlookup', hsub hmem⟩

theorem merge_subset_definitionPairs {states : EdgeStates} (h : FactsOk ast cfg states)
    (node : CfgRef) : mergePredecessorStates cfg.edges states node ⊆ definitionPairs ast cfg := by
  intro d hd
  obtain ⟨e, -, -, σ, hlookup, hmem⟩ := mem_mergePredecessorStates.mp hd
  exact (h e σ hlookup).2 hmem

def edgeWeight : Option ReachingState → Nat
  | none => 0
  | some σ => σ.length + 1

/-- How much the solver has found out. -/
def progress (cfg : ControlFlowGraph) (states : EdgeStates) : Nat :=
  ∑ e ∈ cfg.edges.toFinset, edgeWeight (states.lookup e)

def progressBound (ast : ProcedureAst) (cfg : ControlFlowGraph) : Nat :=
  cfg.edges.length * ((allDefinitionSites ast cfg).length + 1)

theorem progress_le {states : EdgeStates} (h : FactsOk ast cfg states) :
    progress cfg states ≤ progressBound ast cfg := by
  have hweight : ∀ e ∈ cfg.edges.toFinset,
      edgeWeight (states.lookup e) ≤ (allDefinitionSites ast cfg).length + 1 := by
    intro e _
    cases hlookup : states.lookup e with
    | none => simp [edgeWeight]
    | some σ =>
      obtain ⟨hnodup, hsub⟩ := h e σ hlookup
      have hlength := (hnodup.subperm hsub).length_le
      simpa [edgeWeight, definitionPairs] using hlength
  calc progress cfg states
      ≤ cfg.edges.toFinset.card * ((allDefinitionSites ast cfg).length + 1) := by
        simpa [progress] using Finset.sum_le_card_nsmul _ _ _ hweight
    _ ≤ progressBound ast cfg := Nat.mul_le_mul_right _ (List.toFinset_card_le _)

theorem not_same_iff (hba : b ⊆ a) :
    ReachingState.same a b = false ↔ ∃ d ∈ a, d ∉ b := by
  have hall : b.all (· ∈ a) = true := List.all_eq_true.mpr fun d hd => decide_eq_true (hba hd)
  rw [ReachingState.same, hall, Bool.and_true]
  simp

theorem length_lt_of_new (hba : b ⊆ a) (hb : b.Nodup)
    (hnew : ∃ d ∈ a, d ∉ b) : b.length < a.length := by
  obtain ⟨d, hda, hdb⟩ := hnew
  have hsub : d :: b ⊆ a := List.cons_subset.mpr ⟨hda, hba⟩
  have hnodup : (d :: b).Nodup := List.nodup_cons.mpr ⟨hdb, hb⟩
  have hlength := (hnodup.subperm hsub).length_le
  rw [List.length_cons] at hlength
  omega

/-- What a run over some edges of `current` has done so far. -/
structure Spreading (ast : ProcedureAst) (cfg : ControlFlowGraph) (current : CfgRef)
    (merged : ReachingState) (before s : SolverState) (done : List CfgEdge) : Prop where
  inState : s.inState = before.inState
  facts : FactsOk ast cfg s.edgeState
  own : ∀ e σ, e.source = current → s.edgeState.lookup e = some σ →
    σ ⊆ transferForEdge ast cfg merged e
  spread : ∀ e ∈ done, ∃ σ, s.edgeState.lookup e = some σ ∧ transferForEdge ast cfg merged e ⊆ σ
  atLeast : AtLeast before.edgeState s.edgeState
  others : ∀ e, e.source ≠ current → s.edgeState.lookup e = before.edgeState.lookup e
  queued : ∀ e, s.edgeState.lookup e ≠ before.edgeState.lookup e → e.target ∈ s.work
  work : before.work ⊆ s.work
  fuel : s.work.length + progress cfg before.edgeState
    ≤ before.work.length + progress cfg s.edgeState

section Edge

variable {current : CfgRef} {merged : ReachingState} {before s : SolverState} {done : List CfgEdge}
  {e : CfgEdge}

theorem Spreading.keep (h : Spreading ast cfg current merged before s done)
    (hsame : ((s.edgeState.lookup e).map
      (ReachingState.same (transferForEdge ast cfg merged e))).getD false = true) :
    Spreading ast cfg current merged before s (e :: done) where
  inState := h.inState
  facts := h.facts
  own := h.own
  spread := by
    refine List.forall_mem_cons.mpr ⟨?_, h.spread⟩
    cases hlookup : s.edgeState.lookup e with
    | none => simp [hlookup] at hsame
    | some σ =>
      refine ⟨σ, rfl, fun d hd => ?_⟩
      simp only [hlookup, Option.map_some, Option.getD_some, ReachingState.same,
        Bool.and_eq_true, List.all_eq_true, decide_eq_true_eq] at hsame
      exact hsame.1 d hd
  atLeast := h.atLeast
  others := h.others
  queued := h.queued
  work := h.work
  fuel := h.fuel

theorem Spreading.weight_lt (h : Spreading ast cfg current merged before s done)
    (hsource : e.source = current)
    (hsame : ((s.edgeState.lookup e).map
      (ReachingState.same (transferForEdge ast cfg merged e))).getD false = false) :
    edgeWeight (s.edgeState.lookup e) < edgeWeight (some (transferForEdge ast cfg merged e)) := by
  cases hlookup : s.edgeState.lookup e with
  | none => simp [edgeWeight]
  | some σ =>
    have hsub := h.own e σ hsource hlookup
    rw [hlookup, Option.map_some, Option.getD_some, not_same_iff hsub] at hsame
    have hlength := length_lt_of_new hsub (h.facts e σ hlookup).1 hsame
    simp only [edgeWeight]
    omega

theorem progress_update (states : EdgeStates) (he : e ∈ cfg.edges) (σ : ReachingState)
    (hlt : edgeWeight (states.lookup e) < edgeWeight (some σ)) :
    progress cfg states < progress cfg ((e, σ) :: states.filter (·.1 ≠ e)) := by
  refine Finset.sum_lt_sum (fun e' _ => ?_) ⟨e, List.mem_toFinset.mpr he, ?_⟩
  · rw [lookup_update]
    split
    · next heq =>
        subst heq
        exact hlt.le
    · exact le_refl _
  · rw [lookup_update, if_pos rfl]
    exact hlt

/-- Writing one edge's state keeps the invariant of the inner loop. -/
theorem Spreading.update (h : Spreading ast cfg current merged before s done) (he : e ∈ cfg.edges)
    (hsource : e.source = current) (hmerged : merged.Nodup ∧ merged ⊆ definitionPairs ast cfg)
    (hsame : ((s.edgeState.lookup e).map
      (ReachingState.same (transferForEdge ast cfg merged e))).getD false = false) :
    Spreading ast cfg current merged before
      { s with
        edgeState := (e, transferForEdge ast cfg merged e) :: s.edgeState.filter (·.1 ≠ e)
        work := if e.target ∈ s.work then s.work else s.work ++ [e.target] } (e :: done) where
  inState := h.inState
  facts := by
    intro e' σ hlookup
    rw [lookup_update] at hlookup
    split at hlookup
    · obtain rfl := Option.some.inj hlookup
      exact ⟨nodup_transferForEdge hmerged.1, transferForEdge_subset hmerged.2⟩
    · exact h.facts e' σ hlookup
  own := by
    intro e' σ hsource' hlookup
    rw [lookup_update] at hlookup
    split at hlookup
    · next heq =>
        obtain rfl := Option.some.inj hlookup
        rw [heq]
        exact List.Subset.refl _
    · exact h.own e' σ hsource' hlookup
  spread := by
    intro e' he'
    rw [lookup_update]
    split
    · next heq =>
        rw [heq]
        exact ⟨_, rfl, List.Subset.refl _⟩
    · next hne => exact h.spread e' ((List.mem_cons.mp he').resolve_left hne)
  atLeast := by
    refine h.atLeast.trans fun e' σ hlookup => ?_
    rw [lookup_update]
    split
    · next heq =>
        subst heq
        exact ⟨_, rfl, h.own e' σ hsource hlookup⟩
    · exact ⟨σ, hlookup, List.Subset.refl _⟩
  others := by
    intro e' hsource'
    have hne : e' ≠ e := fun heq => hsource' (heq ▸ hsource)
    rw [lookup_update, if_neg hne]
    exact h.others e' hsource'
  queued := by
    intro e' hchanged
    rw [lookup_update] at hchanged
    split at hchanged
    · next heq =>
        subst heq
        split
        · assumption
        · simp
    · have hold := h.queued e' hchanged
      split
      · exact hold
      · exact List.mem_append_left _ hold
  work := by
    refine List.Subset.trans h.work ?_
    split
    · exact List.Subset.refl _
    · exact List.subset_append_left _ _
  fuel := by
    have hprogress := progress_update s.edgeState he _ (h.weight_lt hsource hsame)
    have hold := h.fuel
    have hwork : (if e.target ∈ s.work then s.work else s.work ++ [e.target]).length
        ≤ s.work.length + 1 := by
      split
      · omega
      · simp
    show _ + _ ≤ _ + progress cfg (_ :: _)
    dsimp only
    omega

theorem Spreading.propagate (h : Spreading ast cfg current merged before s done)
    (he : e ∈ cfg.edges) (hsource : e.source = current)
    (hmerged : merged.Nodup ∧ merged ⊆ definitionPairs ast cfg) :
    Spreading ast cfg current merged before (propagate ast cfg merged s e) (e :: done) := by
  unfold Analysis.propagate
  dsimp only
  split
  · next hsame => exact h.keep hsame
  · next hsame => exact h.update he hsource hmerged (by simpa using hsame)

theorem Spreading.foldl (edges : List CfgEdge) (h : Spreading ast cfg current merged before s done)
    (hedges : ∀ e ∈ edges, e ∈ cfg.edges ∧ e.source = current)
    (hmerged : merged.Nodup ∧ merged ⊆ definitionPairs ast cfg) :
    Spreading ast cfg current merged before (edges.foldl (Analysis.propagate ast cfg merged) s)
      (edges.reverse ++ done) := by
  induction edges generalizing s done with
  | nil => exact h
  | cons e edges ih =>
    obtain ⟨⟨he, hsource⟩, hrest⟩ := List.forall_mem_cons.mp hedges
    rw [List.foldl_cons, List.reverse_cons, List.append_assoc]
    exact ih (h.propagate he hsource hmerged) hrest

end Edge

end Propagate

/-! ## The loop -/

section Loop

variable {ast : ProcedureAst} {cfg : ControlFlowGraph}

/-- Nothing has come to the node yet. -/
def Untouched (cfg : ControlFlowGraph) (s : SolverState) (node : CfgRef) : Prop :=
  node ≠ .entry ∧ ∀ e ∈ cfg.edges, e.target = node → s.edgeState.lookup e = none

/-- What comes to the node is its state, and that has been passed on. -/
def Settled (ast : ProcedureAst) (cfg : ControlFlowGraph) (s : SolverState) (node : CfgRef) :
    Prop :=
  ∃ m, s.inState.lookup node = some m ∧ mergePredecessorStates cfg.edges s.edgeState node ⊆ m ∧
    ∀ e ∈ cfg.edges, e.source = node →
      ∃ σ, s.edgeState.lookup e = some σ ∧ transferForEdge ast cfg m e ⊆ σ

structure SolverInv (ast : ProcedureAst) (cfg : ControlFlowGraph) (s : SolverState) : Prop where
  facts : FactsOk ast cfg s.edgeState
  grows : Grows ast cfg s.edgeState
  settled : ∀ node, node ∈ s.work ∨ Untouched cfg s node ∨ Settled ast cfg s node

/-- The node is taken from the work list and its edges are gone through. -/
def processNode (ast : ProcedureAst) (cfg : ControlFlowGraph) (s : SolverState) (current : CfgRef)
    (work : List CfgRef) : SolverState :=
  (cfg.edges.filter fun e => e.source = current).foldl
    (propagate ast cfg (mergePredecessorStates cfg.edges s.edgeState current))
    { s with
      inState := (current, mergePredecessorStates cfg.edges s.edgeState current) ::
        s.inState.filter (·.1 ≠ current)
      work := work }

theorem processNode_spreading {s : SolverState} {current : CfgRef} {work : List CfgRef}
    (hinv : SolverInv ast cfg s) :
    Spreading ast cfg current (mergePredecessorStates cfg.edges s.edgeState current)
      { s with
        inState := (current, mergePredecessorStates cfg.edges s.edgeState current) ::
          s.inState.filter (·.1 ≠ current)
        work := work }
      (processNode ast cfg s current work)
      ((cfg.edges.filter fun e => e.source = current).reverse ++ []) := by
  refine Spreading.foldl _ ⟨rfl, hinv.facts, ?_, by simp, .refl _, fun _ _ => rfl, ?_,
    List.Subset.refl _, le_refl _⟩ ?_ ?_
  · rintro e σ rfl hlookup
    exact hinv.grows e σ hlookup
  · exact fun e h => absurd rfl h
  · intro e he
    simpa using List.mem_filter.mp he
  · exact ⟨nodup_mergePredecessorStates _ _ _, merge_subset_definitionPairs hinv.facts _⟩

/-- A turn of the work list keeps the invariant. -/
theorem processNode_inv {s : SolverState} {current : CfgRef} {work : List CfgRef}
    (hinv : SolverInv ast cfg s) (hwork : s.work = current :: work) :
    SolverInv ast cfg (processNode ast cfg s current work) := by
  have hspread := @processNode_spreading ast cfg s current work hinv
  have hmerge := fun node => hspread.atLeast.merge cfg.edges node
  refine ⟨hspread.facts, ?_, ?_⟩
  · intro e σ hlookup
    by_cases hsource : e.source = current
    · refine List.Subset.trans (hspread.own e σ hsource hlookup) ?_
      rw [hsource]
      exact transferForEdge_mono (hmerge current)
    · have hold := hspread.others e hsource
      rw [hlookup] at hold
      exact List.Subset.trans (hinv.grows e σ hold.symm) (transferForEdge_mono (hmerge e.source))
  · intro node
    by_cases hqueued : node ∈ (processNode ast cfg s current work).work
    · exact .inl hqueued
    · right
      -- nothing that leads to the node has changed
      have hsame : ∀ e ∈ cfg.edges, e.target = node →
          (processNode ast cfg s current work).edgeState.lookup e = s.edgeState.lookup e := by
        intro e _ htarget
        by_contra hchanged
        exact hqueued (htarget ▸ hspread.queued e hchanged)
      have hback : mergePredecessorStates cfg.edges
          (processNode ast cfg s current work).edgeState node
            ⊆ mergePredecessorStates cfg.edges s.edgeState node := by
        intro d hd
        obtain ⟨e, he, htarget, σ, hlookup, hmem⟩ := mem_mergePredecessorStates.mp hd
        rw [hsame e he htarget] at hlookup
        exact mem_mergePredecessorStates.mpr ⟨e, he, htarget, σ, hlookup, hmem⟩
      by_cases hnode : node = current
      · subst hnode
        right
        refine ⟨mergePredecessorStates cfg.edges s.edgeState node, ?_, hback, ?_⟩
        · rw [hspread.inState, lookup_update, if_pos rfl]
        · intro e he hsource
          exact hspread.spread e (by simp [he, hsource])
      · rcases hinv.settled node with hold | ⟨hentry, hnone⟩ | ⟨m, hm, hin, hout⟩
        · rw [hwork] at hold
          exact absurd (hspread.work ((List.mem_cons.mp hold).resolve_left hnode)) hqueued
        · refine .inl ⟨hentry, fun e he htarget => ?_⟩
          rw [hsame e he htarget]
          exact hnone e he htarget
        · refine .inr ⟨m, ?_, List.Subset.trans hback hin, ?_⟩
          · rw [hspread.inState, lookup_update, if_neg hnode]
            exact hm
          · intro e he hsource
            obtain ⟨σ, hlookup, hsub⟩ := hout e he hsource
            obtain ⟨σ', hlookup', hsub'⟩ := hspread.atLeast e σ hlookup
            exact ⟨σ', hlookup', List.Subset.trans hsub hsub'⟩

theorem solveLoop_done {fuel : Nat} {s : SolverState} (hinv : SolverInv ast cfg s)
    (hfuel : s.work.length + progressBound ast cfg ≤ fuel + progress cfg s.edgeState) :
    (solveLoop ast cfg fuel s).work = [] ∧ SolverInv ast cfg (solveLoop ast cfg fuel s) := by
  induction fuel generalizing s with
  | zero =>
    have hle := progress_le hinv.facts
    have hempty : s.work.length = 0 := by omega
    exact ⟨List.length_eq_zero_iff.mp hempty, hinv⟩
  | succ fuel ih =>
    cases hwork : s.work with
    | nil =>
      rw [solveLoop, hwork]
      exact ⟨hwork, hinv⟩
    | cons current work =>
      have hloop : solveLoop ast cfg (fuel + 1) s
          = solveLoop ast cfg fuel (processNode ast cfg s current work) := by
        rw [solveLoop, hwork]
        rfl
      rw [hloop]
      refine ih (processNode_inv hinv hwork) ?_
      have hspent := (@processNode_spreading ast cfg s current work hinv).fuel
      rw [hwork, List.length_cons] at hfuel
      dsimp only at hspent
      omega

end Loop

/-! ## The solution -/

theorem solve_inv (ast : ProcedureAst) (cfg : ControlFlowGraph) :
    (solve ast cfg).work = [] ∧ SolverInv ast cfg (solve ast cfg) := by
  have hnone : ∀ e, (([] : EdgeStates).lookup e) = none := fun _ => rfl
  refine solveLoop_done ⟨fun e σ h => by simp at h, fun e σ h => by simp at h, fun node => ?_⟩ ?_
  · by_cases hentry : node = .entry
    · exact .inl (by simp [hentry])
    · exact .inr (.inl ⟨hentry, fun e _ _ => hnone e⟩)
  · have hzero : progress cfg ([] : EdgeStates) = 0 := by
      simp [progress, edgeWeight]
    dsimp only
    rw [hzero, progressBound, List.length_singleton]
    omega

/-- The solver came to the node. -/
def Reached (ast : ProcedureAst) (cfg : ControlFlowGraph) (node : CfgRef) : Prop :=
  Settled ast cfg (solve ast cfg) node

/-- The definitions that reach a node. -/
def reaching (ast : ProcedureAst) (cfg : ControlFlowGraph) (node : CfgRef) : ReachingState :=
  ((solve ast cfg).inState.lookup node).getD []

section Solution

variable {ast : ProcedureAst} {cfg : ControlFlowGraph}

theorem reached_of_touched {node : CfgRef} (h : ¬ Untouched cfg (solve ast cfg) node) :
    Reached ast cfg node := by
  obtain ⟨hwork, hinv⟩ := solve_inv ast cfg
  rcases hinv.settled node with hqueued | huntouched | hsettled
  · rw [hwork] at hqueued
    cases hqueued
  · exact absurd huntouched h
  · exact hsettled

theorem reached_entry : Reached ast cfg .entry :=
  reached_of_touched fun h => h.1 rfl

theorem solve_closed {e : CfgEdge} (he : e ∈ cfg.edges) (hsource : Reached ast cfg e.source) :
    Reached ast cfg e.target ∧
      transferForEdge ast cfg (reaching ast cfg e.source) e ⊆ reaching ast cfg e.target := by
  obtain ⟨m, hm, -, hout⟩ := hsource
  obtain ⟨σ, hlookup, hsub⟩ := hout e he rfl
  have htarget : Reached ast cfg e.target := reached_of_touched fun h => by
    rw [h.2 e he rfl] at hlookup
    cases hlookup
  refine ⟨htarget, ?_⟩
  obtain ⟨m', hm', hin, -⟩ := htarget
  rw [reaching, reaching, hm, hm']
  intro d hd
  exact hin (mem_mergePredecessorStates.mpr ⟨e, he, rfl, σ, hlookup, hsub hd⟩)

theorem mem_definitionsAtCfg {node : CfgRef} {symbol : String} :
    ref ∈ definitionsAtCfg (solve ast cfg) node symbol ↔
      (Text.upperString symbol, ref) ∈ reaching ast cfg node := by
  simp only [definitionsAtCfg, reaching, List.mem_map, List.mem_filter, decide_eq_true_eq]
  constructor
  · rintro ⟨⟨x, r⟩, ⟨hmem, rfl⟩, rfl⟩
    exact hmem
  · intro h
    exact ⟨_, ⟨h, rfl⟩, rfl⟩

end Solution

end AtlasDb.Analysis
