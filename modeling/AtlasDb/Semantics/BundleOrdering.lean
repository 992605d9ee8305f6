import AtlasDb.Semantics.AtomicCompounds
import AtlasDb.Semantics.Obligations

/-!
# The order of the effects of a bundle

An ordering edge of a bundle says that one effect comes before another. In a `BEGIN ATOMIC` compound
the edge follows the order of the source, elsewhere that of the graph. The edges follow the order of
the list of members, so they are acyclic, and each agrees with every path (`ordering_edges_agree`).
-/

namespace AtlasDb.Semantics

open Core Lib Parsing Analysis

/-! ## The members of a bundle -/

/-- What the analysis of the direct effects promises: no two of its effects have one reference, and
each is that of a statement. -/
structure EffectsOf (ast : ProcedureAst) (effects : List EffectCandidate) : Prop where
  distinct : (effects.map EffectCandidate.effectId).Nodup
  statements : ∀ e ∈ effects, ∃ stmt, (e.sourceNodeRef, stmt) ∈ statementsOf ast.body

/-- A statement has no binding of another kind of statement. -/
structure OwnBindings (stmt : Statement) : Prop where
  assignment : stmt.kind ≠ .set → stmt.assignment = none
  selectInto : stmt.kind ≠ .selectInto → stmt.selectIntoTargets = none
  fetch : stmt.kind ≠ .fetchCursor → stmt.fetch = none
  execute : stmt.kind ≠ .execute → stmt.kind ≠ .executeImmediate → stmt.execute = none

section Direct

variable {ast : ProcedureAst} {sites : List DynamicSqlSite} {variants : List DynamicSqlVariant}

theorem toString_injective {m n : Nat} (h : toString m = toString n) : m = n := by
  have hdigits : Nat.toDigits 10 m = Nat.toDigits 10 n := String.ofList_injective h
  calc m = Nat.ofDigitChars 10 (Nat.toDigits 10 m) 0 := Nat.ofDigitChars_ten_toDigits.symm
    _ = n := hdigits ▸ Nat.ofDigitChars_ten_toDigits

theorem targetSites_nodup (ref : NodeRef) (kind : DefinitionKind) (label : String)
    (targets : List String) :
    ((targetSites ref kind (fun n => label ++ toString n) targets).map
      DefinitionSite.expressionText).Nodup := by
  rw [targetSites, List.map_map]
  have hindices : (targets.zipIdx.map Prod.snd).Nodup := by
    rw [List.zipIdx_map_snd]
    exact List.nodup_range'
  refine List.pairwise_map.mpr ((List.pairwise_map.mp hindices).imp ?_)
  intro s t hne heq
  have htext := (String.append_right_inj label).mp (Option.some.inj heq)
  exact hne (Nat.succ_injective (toString_injective htext))

theorem nodeDefinitionSites_nodup {ref : NodeRef} {stmt : Statement} (hown : OwnBindings stmt) :
    ((nodeDefinitionSites ref stmt).map DefinitionSite.expressionText).Nodup := by
  unfold nodeDefinitionSites
  by_cases hset : stmt.kind = .set
  · rw [hown.selectInto (by simp [hset]), hown.fetch (by simp [hset]),
      hown.execute (by simp [hset]) (by simp [hset])]
    cases stmt.assignment with
    | none => exact List.nodup_nil
    | some a => exact List.nodup_singleton _
  rw [hown.assignment hset]
  by_cases hselect : stmt.kind = .selectInto
  · rw [hown.fetch (by simp [hselect]), hown.execute (by simp [hselect]) (by simp [hselect])]
    simpa using targetSites_nodup ref .selectInto "SELECT_INTO_PROJECTION_" _
  rw [hown.selectInto hselect]
  by_cases hfetch : stmt.kind = .fetchCursor
  · rw [hown.execute (by simp [hfetch]) (by simp [hfetch])]
    cases stmt.fetch with
    | none => exact List.nodup_nil
    | some f =>
      simpa [targetSites] using
        targetSites_nodup ref .fetch ("FETCH_" ++ f.cursorName ++ "_COLUMN_") f.targetNames
  rw [hown.fetch hfetch]
  cases stmt.execute with
  | none => exact List.nodup_nil
  | some e =>
    simpa [targetSites] using
      targetSites_nodup ref .executeInto "EXECUTE_INTO_PROJECTION_" e.intoTargetNames

theorem flatMap_statements_nodup {α : Type} {l : List (NodeRef × Statement)}
    {f : NodeRef × Statement → List α} (ref : α → NodeRef) (hdistinct : (l.map Prod.fst).Nodup)
    (hnodup : ∀ s ∈ l, (f s).Nodup) (href : ∀ s, ∀ a ∈ f s, ref a = s.1) : (l.flatMap f).Nodup := by
  refine List.nodup_flatMap.mpr ⟨hnodup, (List.pairwise_map.mp hdistinct).imp ?_⟩
  intro s t hne a ha ha'
  exact hne ((href s a ha).symm.trans (href t a ha'))

theorem outEffect_valueExpression (solution : SolverState) (site : DefinitionSite) :
    (outEffect solution site).effectId.valueExpression = site.expressionText := by
  unfold outEffect
  dsimp only
  split
  · rfl
  · split <;> rfl

theorem outEffects_nodup (hown : ∀ s ∈ statementsOf ast.body, OwnBindings s.2) :
    ((outEffects ast (.build ast)).map EffectCandidate.effectId).Nodup := by
  let key := fun d : DefinitionSite => (d.sourceNodeRef, d.expressionText)
  have hsites : ((allDefinitionSites ast (.build ast)).map key).Nodup := by
    rw [allDefinitionSites, List.map_flatMap]
    refine flatMap_statements_nodup Prod.fst ?_ (fun s hs => ?_) (fun s a ha => ?_)
    · exact (statements_nodup ast).sublist (List.filter_sublist.map _)
    · refine List.Nodup.of_map Prod.snd ?_
      rw [List.map_map]
      exact nodeDefinitionSites_nodup (hown s (List.mem_of_mem_filter hs))
    · obtain ⟨d, hd, rfl⟩ := List.mem_map.mp ha
      exact nodeDefinitionSites_source hd
  refine List.Nodup.of_map (fun id : EffectId => (id.nodeRef, id.valueExpression)) ?_
  rw [outEffects, List.map_map, List.map_map]
  have hkey : ((fun id : EffectId => (id.nodeRef, id.valueExpression)) ∘ EffectCandidate.effectId) ∘
      outEffect (solve ast (.build ast)) = key := funext fun d =>
    Prod.ext (outEffect_nodeRef _ d) (outEffect_valueExpression _ d)
  rw [hkey]
  exact hsites.sublist (List.filter_sublist.map key)

theorem dynamicEffects_length (ref : NodeRef) (stmt : Statement) :
    (dynamicEffects sites variants ref stmt).length ≤ 1 := by
  unfold dynamicEffects
  split
  · exact le_rfl
  · dsimp only
    split
    · exact le_rfl
    split
    · exact le_rfl
    split
    · exact le_rfl
    · exact Nat.zero_le _

/-- The kinds of effects that an assignment may have. -/
def assignmentKinds : List EffectKind :=
  [.outParameterAssignment, .stateAssignment, .sequenceValueAcquisition]

/-- At most one effect, and not one of an assignment. -/
def ForKind (effects : List EffectCandidate) : Prop :=
  effects.length ≤ 1 ∧ ∀ e ∈ effects, e.effectId.kind ∉ assignmentKinds

theorem forKind_nil : ForKind [] := ⟨Nat.zero_le _, fun _ h => absurd h List.not_mem_nil⟩

theorem forKind_single (kind : EffectKind) {effect : EffectCandidate}
    (heffect : effect.effectId.kind = kind) (hkind : kind ∉ assignmentKinds) :
    ForKind [effect] := by
  refine ⟨le_rfl, fun e he => ?_⟩
  rw [List.mem_singleton.mp he, heffect]
  exact hkind

theorem forKind_dynamic (ref : NodeRef) (stmt : Statement) :
    ForKind (dynamicEffects sites variants ref stmt) := by
  refine ⟨dynamicEffects_length ref stmt, fun e he => ?_⟩
  rw [(dynamicEffects_kind he).2]
  decide

theorem statementEffects_rest (ref : NodeRef) (stmt : Statement) :
    ∃ rest, statementEffects ast sites variants ref stmt = assignmentEffects ast ref stmt ++ rest ∧
      ForKind rest := by
  unfold statementEffects
  refine ⟨_, rfl, ?_⟩
  split
  · split
    · exact forKind_single .dml rfl (by decide)
    · exact forKind_nil
  · split
    · exact forKind_single .resultSetReturn rfl (by decide)
    · exact forKind_nil
  · exact forKind_single .dml rfl (by decide)
  · exact forKind_single .call rfl (by decide)
  · exact forKind_dynamic ref stmt
  · exact forKind_dynamic ref stmt
  · exact forKind_single .commit rfl (by decide)
  · exact forKind_single .rollback rfl (by decide)
  · exact forKind_single .resignal rfl (by decide)
  · exact forKind_single .signal rfl (by decide)
  · exact forKind_nil

theorem statementEffects_nodup (ref : NodeRef) (stmt : Statement) :
    ((statementEffects ast sites variants ref stmt).map EffectCandidate.effectId).Nodup := by
  -- An assignment has at most one effect of each of its two kinds.
  have hassignment : ((assignmentEffects ast ref stmt).map fun e => e.effectId.kind).Sublist
      [.stateAssignment, .sequenceValueAcquisition] := by
    unfold assignmentEffects
    split
    · exact List.nil_sublist _
    · rw [List.map_append]
      show List.Sublist _ ([EffectKind.stateAssignment] ++ [.sequenceValueAcquisition])
      refine List.Sublist.append ?_ ?_
      · split
        · exact .refl _
        · exact List.nil_sublist _
      · split
        · exact .refl _
        · exact List.nil_sublist _
  obtain ⟨rest, heq, hlength, hkinds⟩ := @statementEffects_rest ast sites variants ref stmt
  refine List.Nodup.of_map EffectId.kind ?_
  rw [heq, List.map_map, List.map_append, List.nodup_append']
  refine ⟨List.Nodup.sublist hassignment (by decide), ?_, ?_⟩
  · cases rest with
    | nil => exact List.nodup_nil
    | cons e rest =>
      obtain rfl := List.length_eq_zero_iff.mp (Nat.le_zero.mp (Nat.le_of_succ_le_succ hlength))
      exact List.nodup_singleton _
  · intro kind hkind hrest
    obtain ⟨e, he, rfl⟩ := List.mem_map.mp hrest
    exact hkinds e he (List.mem_cons_of_mem _ (hassignment.subset hkind))

theorem statementEffects_ne_out {ref : NodeRef} {stmt : Statement} {e : EffectCandidate}
    (h : e ∈ statementEffects ast sites variants ref stmt) :
    e.effectId.kind ≠ .outParameterAssignment := by
  obtain ⟨rest, heq, -, hkinds⟩ := @statementEffects_rest ast sites variants ref stmt
  rw [heq] at h
  intro hkind
  rcases List.mem_append.mp h with h | h
  · rcases (assignmentEffects_kind h).2 with h | h
    · rw [hkind] at h
      cases h
    · rw [hkind] at h
      cases h
  · exact hkinds e h (hkind ▸ List.mem_cons_self)

theorem directEffects_effectsOf (hown : ∀ s ∈ statementsOf ast.body, OwnBindings s.2) :
    EffectsOf ast (directEffects ast (.build ast) sites variants) where
  distinct := by
    rw [directEffects, List.map_append, List.nodup_append']
    refine ⟨outEffects_nodup hown, ?_, ?_⟩
    · rw [List.map_flatMap]
      refine flatMap_statements_nodup EffectId.nodeRef (statements_nodup ast)
        (fun s _ => statementEffects_nodup s.1 s.2) fun s id hid => ?_
      obtain ⟨e, he, rfl⟩ := List.mem_map.mp hid
      exact (statementEffects_kind he).1
    · intro id hout hstatement
      obtain ⟨e, he, rfl⟩ := List.mem_map.mp hout
      obtain ⟨e', he', heq⟩ := List.mem_map.mp hstatement
      obtain ⟨site, -, rfl⟩ := List.mem_map.mp he
      obtain ⟨s, -, he'⟩ := List.mem_flatMap.mp he'
      exact statementEffects_ne_out he' (heq ▸ outEffect_kind _ site)
  statements := by
    intro e he
    rcases List.mem_append.mp he with he | he
    · obtain ⟨site, hsite, rfl⟩ := List.mem_map.mp he
      obtain ⟨s, hs, hd⟩ := List.mem_flatMap.mp (List.mem_of_mem_filter hsite)
      refine ⟨s.2, ?_⟩
      show ((outEffect _ site).effectId.nodeRef, s.2) ∈ _
      rw [outEffect_nodeRef, nodeDefinitionSites_source hd]
      exact List.mem_of_mem_filter hs
    · obtain ⟨s, hs, he⟩ := List.mem_flatMap.mp he
      refine ⟨s.2, ?_⟩
      show (e.effectId.nodeRef, s.2) ∈ _
      rw [(statementEffects_kind he).1]
      exact hs

end Direct

theorem sourceOffset_eq {ast : ProcedureAst} {ref : NodeRef} {stmt : Statement}
    (h : (ref, stmt) ∈ statementsOf ast.body) : sourceOffset ast ref = stmt.startOffset := by
  rw [sourceOffset, lookup_of_mem_of_nodup (statements_nodup ast) h]
  rfl

section Members

variable {nx : DominatorLibrary} {ast : ProcedureAst} {cfg : ControlFlowGraph} {regionRef : NodeRef}
  {analyses : List EffectTransactionAnalysis} {effects : List EffectCandidate}

/-- The effect that is inherited for a target. -/
def inheritedFor (solution : SolverState) (primary : EffectCandidate)
    (base admitted : List EffectCandidate) (target : String) : Option EffectCandidate :=
  if some target ∈ (base.filter EffectCandidate.isOut).map EffectCandidate.target then none
  else
    match definitionsAtCfg solution (.ast primary.sourceNodeRef) target with
    | [ref] =>
      ((admitted.filter EffectCandidate.isOut).reverse.find? fun e =>
        e.upperTarget = target && e.sourceNodeRef = ref).filter
          fun e => e.effectId ∉ base.map EffectCandidate.effectId &&
            e.observability = .escapingEffect
    | _ => none

theorem inheritedFor_some {solution : SolverState} {primary e : EffectCandidate}
    {base admitted : List EffectCandidate} {target : String}
    (h : inheritedFor solution primary base admitted target = some e) :
    e ∈ admitted ∧ e.upperTarget = target ∧ e.effectId ∉ base.map EffectCandidate.effectId := by
  unfold inheritedFor at h
  split at h
  · cases h
  split at h
  · obtain ⟨hfind, hnew⟩ := Option.filter_eq_some_iff.mp h
    have hmem := List.mem_reverse.mp (List.mem_of_find?_eq_some hfind)
    have htarget := List.find?_some hfind
    simp only [Bool.and_eq_true, decide_eq_true_eq] at htarget hnew
    exact ⟨List.mem_of_mem_filter hmem, htarget.1, hnew.1⟩
  · cases h

theorem requiredProcedureOutEffects_eq (ast : ProcedureAst) (solution : SolverState)
    (primary : EffectCandidate) (base admitted : List EffectCandidate) : ∃ targets :
    List String, targets.Nodup ∧
      requiredProcedureOutEffects ast solution primary base admitted =
        targets.filterMap (inheritedFor solution primary base admitted) := by
  unfold requiredProcedureOutEffects
  dsimp only
  split
  · split
    · exact ⟨[], List.nodup_nil, rfl⟩
    · exact ⟨_, (List.perm_insertionSort _ _).nodup_iff.mpr (List.nodup_dedup _), rfl⟩
  · exact ⟨[], List.nodup_nil, by simp⟩

theorem mem_requiredProcedureOutEffects {solution : SolverState} {primary e : EffectCandidate}
    {base admitted : List EffectCandidate}
    (h : e ∈ requiredProcedureOutEffects ast solution primary base admitted) :
    e ∈ admitted ∧ e.effectId ∉ base.map EffectCandidate.effectId := by
  obtain ⟨targets, -, heq⟩ := requiredProcedureOutEffects_eq ast solution primary base admitted
  rw [heq] at h
  obtain ⟨target, -, h⟩ := List.mem_filterMap.mp h
  obtain ⟨hmem, -, hnew⟩ := inheritedFor_some h
  exact ⟨hmem, hnew⟩

theorem requiredProcedureOutEffects_nodup (solution : SolverState) (primary : EffectCandidate)
    (base admitted : List EffectCandidate) :
    (requiredProcedureOutEffects ast solution primary base admitted).Nodup := by
  obtain ⟨targets, htargets, heq⟩ :=
    requiredProcedureOutEffects_eq ast solution primary base admitted
  rw [heq]
  refine List.pairwise_filterMap.mpr (htargets.imp ?_)
  rintro target target' hne e he e' he' rfl
  obtain ⟨-, htarget, -⟩ := inheritedFor_some he
  obtain ⟨-, htarget', -⟩ := inheritedFor_some he'
  exact hne (htarget.symm.trans htarget')

/-- The members of a bundle stand in the order of the source. -/
theorem mem_buildBundles_members (heffects : EffectsOf ast effects) {bundle : BehaviorEffectBundle}
    (h : bundle ∈ buildBundles nx ast cfg regionRef analyses effects) :
    ∃ ordered : List EffectCandidate, (ordered.map EffectCandidate.effectId).Nodup ∧
      ordered ⊆ effects ∧
      ordered.Pairwise
      (fun a b => sourceOffset ast a.sourceNodeRef ≤ sourceOffset ast b.sourceNodeRef) ∧
      bundle.orderingEdges = orderingEdges ast cfg ordered ∧
      bundle.effectMembers.map BundleEffectMember.effectRef =
      ordered.map EffectCandidate.effectId := by
  obtain ⟨controlling, -, hbundle⟩ := List.mem_filterMap.mp h
  split at hbundle
  · cases hbundle
  next first rest hbase =>
  cases hbundle
  set admitted := effects.filter EffectCandidate.isAdmitted with hadmitted
  set inherited := requiredProcedureOutEffects ast (solve ast cfg) (primaryOf ast first rest)
    (first :: rest) admitted with hinherited
  have hperm : (sortedByOffset ast (first :: rest ++ inherited)).Perm
    (first :: rest ++ inherited) :=
    List.perm_insertionSort _ _
  have hbaseperm : (first :: rest).Perm
      (admitted.filter fun e => controlRegion ast e.sourceNodeRef = controlling) :=
    hbase ▸ List.perm_insertionSort _ _
  have hinj : ∀ a ∈ effects, ∀ b ∈ effects, a.effectId = b.effectId → a = b := fun a ha b hb =>
    List.inj_on_of_nodup_map heffects.distinct ha hb
  have hbasemem : ∀ e ∈ first :: rest, e ∈ effects := fun e he =>
    List.mem_of_mem_filter (List.mem_of_mem_filter (hbaseperm.mem_iff.mp he))
  have hinheritedmem : ∀ e ∈ inherited, e ∈ effects := fun e he =>
    List.mem_of_mem_filter (mem_requiredProcedureOutEffects he).1
  refine ⟨sortedByOffset ast (first :: rest ++ inherited), ?_, ?_, ?_, rfl, ?_⟩
  · rw [(hperm.map _).nodup_iff, List.map_append, List.nodup_append']
    refine ⟨?_, ?_, ?_⟩
    · rw [(hbaseperm.map _).nodup_iff]
      exact heffects.distinct.sublist ((List.filter_sublist.trans List.filter_sublist).map _)
    · exact (requiredProcedureOutEffects_nodup ..).map_on fun a ha b hb =>
        hinj a (hinheritedmem a ha) b (hinheritedmem b hb)
    · intro id hid hid'
      obtain ⟨e, he, rfl⟩ := List.mem_map.mp hid'
      exact (mem_requiredProcedureOutEffects he).2 hid
  · intro e he
    rcases List.mem_append.mp (hperm.mem_iff.mp he) with he | he
    · exact hbasemem e he
    · exact hinheritedmem e he
  · exact List.pairwise_insertionSort _ _
  · exact List.map_map

end Members

/-! ## The edges -/

section Ordering

variable {ast : ProcedureAst} {cfg : ControlFlowGraph}

theorem mem_orderingEdges {members : List EffectCandidate} {e : EffectOrderingEdge}
    (h : e ∈ orderingEdges ast cfg members) :
    ∃ left right, [left, right].Sublist members ∧ orderingEdge ast cfg left right = some e := by
  induction members with
  | nil => cases h
  | cons left members ih =>
    rcases List.mem_append.mp h with h | h
    · obtain ⟨right, hright, hedge⟩ := List.mem_filterMap.mp h
      exact ⟨left, right, (List.singleton_sublist.mpr hright).cons_cons left, hedge⟩
    · obtain ⟨a, b, hsub, hedge⟩ := ih h
      exact ⟨a, b, hsub.cons left, hedge⟩

/-- The statements of two effects are in one atomic region. -/
def sameAtomicRegion (ast : ProcedureAst) (left right : EffectCandidate) : Bool :=
  match controlRegion ast left.sourceNodeRef with
  | .atomicRegion _ =>
    controlRegion ast left.sourceNodeRef = controlRegion ast right.sourceNodeRef
  | _ => false

variable {left right : EffectCandidate}

theorem sameAtomicRegion_iff :
    sameAtomicRegion ast left right = true ↔
      ∃ region, controlRegion ast left.sourceNodeRef = .atomicRegion region ∧
        controlRegion ast right.sourceNodeRef = .atomicRegion region := by
  unfold sameAtomicRegion
  cases controlRegion ast left.sourceNodeRef with
  | atomicRegion region => simp [eq_comm]
  | effectRegion => simp
  | ifArm => simp
  | handlerRegion => simp
  | loopRegion => simp

theorem orderingEdge_some {e : EffectOrderingEdge} (h : orderingEdge ast cfg left right = some e) :
    (e = ⟨left.effectId, right.effectId, .atomicCompound⟩ ∧
      sameAtomicRegion ast left right = true) ∨
      (e = ⟨left.effectId, right.effectId, .sameTransactionRegion⟩ ∧
        hasPath cfg right.sourceNodeRef left.sourceNodeRef = false) := by
  change (if !(.ast left.sourceNodeRef ∈ cfg.nodes) ||
    !(.ast right.sourceNodeRef ∈ cfg.nodes) then none
    else if sameAtomicRegion ast left right then _ else if _ then _ else none) = some e at h
  split at h
  · cases h
  split at h
  · next hsame => exact .inl ⟨(Option.some.inj h).symm, hsame⟩
  split at h
  · next hpath =>
      exact .inr ⟨(Option.some.inj h).symm, by simpa using (Bool.and_eq_true_iff.mp hpath).2⟩
  · cases h

theorem orderingEdge_refs {e : EffectOrderingEdge} (h : orderingEdge ast cfg left right = some e) :
    e.beforeEffectRef = left.effectId ∧ e.afterEffectRef = right.effectId := by
  rcases orderingEdge_some h with ⟨rfl, -⟩ | ⟨rfl, -⟩
  · exact ⟨rfl, rfl⟩
  · exact ⟨rfl, rfl⟩

theorem idxOf_lt_of_sublist {α : Type} [DecidableEq α] {l : List α} {a b : α} (hnodup : l.Nodup)
    (h : [a, b].Sublist l) : l.idxOf a < l.idxOf b := by
  induction l with
  | nil => cases h
  | cons x l ih =>
    obtain ⟨hx, hl⟩ := List.nodup_cons.mp hnodup
    cases h with
    | cons _ h =>
      have ha : x ≠ a := fun heq => hx (heq ▸ h.subset List.mem_cons_self)
      have hb : x ≠ b := fun heq => hx (heq ▸ h.subset (by simp))
      rw [List.idxOf_cons_ne _ ha, List.idxOf_cons_ne _ hb]
      exact Nat.succ_lt_succ (ih hl h)
    | cons_cons _ h =>
      have hb : a ≠ b := fun heq => hx (heq ▸ List.singleton_sublist.mp h)
      rw [List.idxOf_cons_self, List.idxOf_cons_ne _ hb]
      exact Nat.succ_pos _

/-- What an edge says of the paths between the two statements. -/
def EdgeHolds (ast : ProcedureAst) (e : EffectOrderingEdge) : Prop :=
  match e.atomicity with
  | .sameTransactionRegion =>
    ¬ Relation.ReflTransGen (Edge ast) (.ast e.afterEffectRef.nodeRef)
      (.ast e.beforeEffectRef.nodeRef)
  | .atomicCompound => ∃ region inner, (region, inner) ∈ compoundsOf ast ∧
      controlRegion ast e.beforeEffectRef.nodeRef = .atomicRegion region ∧
      controlRegion ast e.afterEffectRef.nodeRef = .atomicRegion region ∧
      e.beforeEffectRef.nodeRef ∈ flowRefs inner ∧ e.afterEffectRef.nodeRef ∈ flowRefs inner ∧
      ¬ ExecutedAfter ast region e.afterEffectRef.nodeRef e.beforeEffectRef.nodeRef

theorem not_reaches_of_hasPath {a b : NodeRef}
    (h : hasPath (.build ast) a b = false) : ¬ Relation.ReflTransGen (Edge ast) (.ast a)
    (.ast b) := by
  intro hpath
  have hmem : CfgRef.ast b ∈ reachedBefore (graphEdges (.build ast)) (fun _ => false) (.ast a) := by
    rw [mem_reachedBefore]
    refine Relation.ReflTransGen.mono (fun x y hedge => ⟨?_, rfl⟩) _ _ hpath
    obtain ⟨e, he, rfl, rfl⟩ := hedge
    exact List.mem_map.mpr ⟨e, he, rfl⟩
  simp [hasPath, hmem] at h

/-- The ordering edges of a bundle are acyclic, and each agrees with every path: an edge of the
transaction region with every path of the graph, one of an atomic compound with every path within
one activation of the compound. -/
theorem ordering_edges_agree (nx : DominatorLibrary) (ast : ProcedureAst) (regionRef : NodeRef)
    (analyses : List EffectTransactionAnalysis) (effects : List EffectCandidate)
    (hordered : SourceOrdered ast.body) (heffects : EffectsOf ast effects)
    (bundle : BehaviorEffectBundle)
    (hbundle : bundle ∈ buildBundles nx ast (.build ast) regionRef analyses effects) :
    (∀ e ∈ bundle.orderingEdges,
      e.beforeEffectRef ∈ bundle.effectMembers.map BundleEffectMember.effectRef ∧
        e.afterEffectRef ∈ bundle.effectMembers.map BundleEffectMember.effectRef) ∧
    (∀ a, ¬ Relation.TransGen (fun a b => ∃ e ∈ bundle.orderingEdges,
      e.beforeEffectRef = a ∧ e.afterEffectRef = b) a a) ∧
    ∀ e ∈ bundle.orderingEdges, EdgeHolds ast e := by
  obtain ⟨ordered, hdistinct, hsubset, hsorted, hedges, hmembers⟩ :=
    mem_buildBundles_members heffects hbundle
  rw [hedges, hmembers]
  refine ⟨?_, ?_, ?_⟩
  · intro e he
    obtain ⟨left, right, hsub, hedge⟩ := mem_orderingEdges he
    obtain ⟨hbefore, hafter⟩ := orderingEdge_refs hedge
    rw [hbefore, hafter]
    exact ⟨List.mem_map_of_mem (hsub.subset (by simp)), List.mem_map_of_mem (hsub.subset (by simp))⟩
  · -- Along the edges the position in the list grows.
    intro a hcycle
    have hgrows : ∀ x y, Relation.TransGen (fun a b => ∃ e ∈ orderingEdges ast (.build ast) ordered,
        e.beforeEffectRef = a ∧ e.afterEffectRef = b) x y →
        (ordered.map EffectCandidate.effectId).idxOf x <
          (ordered.map EffectCandidate.effectId).idxOf y := by
      intro x y hpath
      have hstep : ∀ x y, (∃ e ∈ orderingEdges ast (.build ast) ordered,
          e.beforeEffectRef = x ∧ e.afterEffectRef = y) →
          (ordered.map EffectCandidate.effectId).idxOf x <
            (ordered.map EffectCandidate.effectId).idxOf y := by
        rintro x y ⟨e, he, rfl, rfl⟩
        obtain ⟨left, right, hsub, hedge⟩ := mem_orderingEdges he
        obtain ⟨hbefore, hafter⟩ := orderingEdge_refs hedge
        rw [hbefore, hafter]
        exact idxOf_lt_of_sublist hdistinct (hsub.map EffectCandidate.effectId)
      induction hpath with
      | single h => exact hstep _ _ h
      | tail hpath h ih => exact ih.trans (hstep _ _ h)
    exact lt_irrefl _ (hgrows a a hcycle)
  · intro e he
    obtain ⟨left, right, hsub, hedge⟩ := mem_orderingEdges he
    rcases orderingEdge_some hedge with ⟨rfl, hsame⟩ | ⟨rfl, hpath⟩
    · obtain ⟨region, hleft, hright⟩ := sameAtomicRegion_iff.mp hsame
      obtain ⟨s, hs⟩ := heffects.statements left (hsubset (hsub.subset (by simp)))
      obtain ⟨t, ht⟩ := heffects.statements right (hsubset (hsub.subset (by simp)))
      have hle := (List.pairwise_cons.mp (hsorted.sublist hsub)).1 right (List.mem_singleton_self _)
      rw [sourceOffset_eq hs, sourceOffset_eq ht] at hle
      obtain ⟨inner, hmem, ha, hb, hnot⟩ := atomic_order hordered hs ht hleft hright hle
      exact ⟨region, inner, hmem, hleft, hright, ha, hb, hnot⟩
    · exact not_reaches_of_hasPath hpath

/-- A loop around a compound with two updates, so that either can be reached from the other. -/
def atomicInLoop : ProcedureAst where
  nodeId := "procedure"
  parameters := []
  commitOnReturn := none
  body :=
    [.loop "loop" { loopKind := .while, conditionText := some "N > 0" }
      [.compound "atomic" none "BEGIN ATOMIC UPDATE T SET A = 1; UPDATE U SET B = 1; END"
        [.simple "first" { kind := .dml, text := "UPDATE T SET A = 1", startOffset := 10 },
         .simple "second" { kind := .dml, text := "UPDATE U SET B = 1", startOffset := 30 }]]]
  distinct := by decide

/-- They are ordered, though either can be reached from the other. -/
theorem atomicInLoop_ordered :
    ∃ bundle ∈ buildBundles dominatorLibrary atomicInLoop (.build atomicInLoop) "region" []
        (directEffects atomicInLoop (.build atomicInLoop) [] []),
      ∃ e ∈ bundle.orderingEdges, e.atomicity = .atomicCompound ∧
        hasPath (.build atomicInLoop) e.afterEffectRef.nodeRef e.beforeEffectRef.nodeRef = true ∧
        EdgeHolds atomicInLoop e := by
  have hfound : ((buildBundles dominatorLibrary atomicInLoop (.build atomicInLoop) "region" []
      (directEffects atomicInLoop (.build atomicInLoop) [] [])).any fun bundle =>
      bundle.orderingEdges.any fun e => e.atomicity = .atomicCompound &&
        hasPath (.build atomicInLoop) e.afterEffectRef.nodeRef e.beforeEffectRef.nodeRef) =
        true := by
    decide +kernel
  obtain ⟨bundle, hbundle, hedges⟩ := List.any_eq_true.mp hfound
  obtain ⟨e, he, hfacts⟩ := List.any_eq_true.mp hedges
  simp only [Bool.and_eq_true, decide_eq_true_eq] at hfacts
  have hown : ∀ s ∈ statementsOf atomicInLoop.body, OwnBindings s.2 := by
    intro s hs
    have hall : ∀ s ∈ statementsOf atomicInLoop.body, s.2.assignment = none ∧
        s.2.selectIntoTargets = none ∧ s.2.fetch = none ∧ s.2.execute = none := by decide
    obtain ⟨hassignment, hselect, hfetch, hexecute⟩ := hall s hs
    exact ⟨fun _ => hassignment, fun _ => hselect, fun _ => hfetch, fun _ _ => hexecute⟩
  exact ⟨bundle, hbundle, e, he, hfacts.1, hfacts.2,
    (ordering_edges_agree dominatorLibrary atomicInLoop "region" [] _ (by decide)
      (directEffects_effectsOf hown) bundle hbundle).2.2 e he⟩

end Ordering

end AtlasDb.Semantics
