import AtlasDb.Runtime.Safety
import AtlasDb.Semantics.Observability

/-!
# What the safety assessment contains

A run of a procedure that the assessment allows is rolled back by the executor, so it must not
commit or call a routine on its own: neither by a statement of the procedure nor by the text of a
dynamic statement. Such a text is one the analysis has reconstructed; whether it commits or calls is
seen from the word it begins with.
-/

namespace AtlasDb.Semantics

open Core Lib Parsing Analysis AtlasDb.Runtime DynamicSql

variable {ast : ProcedureAst}

/-! ## What a visit does -/

/-- The sites of the procedure. -/
abbrev sitesOf (ast : ProcedureAst) : List DynamicSqlSite := dynamicSites ast (.build ast)

/-- Its direct effects. -/
abbrev effectsOf (ast : ProcedureAst) : List EffectCandidate :=
  directEffects ast (.build ast) (sitesOf ast) (dynamicVariants ast (.build ast))

/-- The dynamic statement at the node runs a text of this variant. -/
def RunsVariant (ast : ProcedureAst) (node : NodeRef) (variant : DynamicSqlVariant) : Prop :=
  ∃ site ∈ sitesOf ast, site.executeNodeRef = node ∧ variant ∈ site.variantRefs

/-- The visit is one of a statement of this kind, or of a dynamic statement with a text that begins
with this word. -/
def Performs (ast : ProcedureAst) (kind : StatementKind) (word : String) (v : Visit) : Prop :=
  kindAt ast v.node = some kind ∨
    ∃ variant text, RunsVariant ast v.node variant ∧ variant.concreteSql = some text ∧
      leadingWord text.toList = word.toList

/-- The visits neither commit nor call a routine. -/
def Contained (ast : ProcedureAst) (visits : List Visit) : Prop :=
  ∀ v ∈ visits, ¬ Performs ast .commit "COMMIT" v ∧ ¬ Performs ast .call "CALL" v

/-- No run gets to a dynamic statement one of whose texts is a `CALL`. -/
def NoDynamicCall (collate : Char → Nat) (M : ConditionModel) (ast : ProcedureAst) : Prop :=
  ∀ visits c, StepsBy (.sql collate) M (procedureScope ast) (start ast) visits c →
    ∀ v ∈ visits, ∀ variant, RunsVariant ast v.node variant → variant.statementKind ≠ .call

/-! ## Effects of `COMMIT` and `CALL` -/

section Kinds

variable {cfg : ControlFlowGraph} {sites : List DynamicSqlSite} {variants : List DynamicSqlVariant}
  {ref : NodeRef} {stmt : Statement} {e : EffectCandidate}

theorem mem_effectKinds_commit {kind : StatementKind} (h : .commit ∈ effectKinds kind) :
    kind = .commit := by
  cases kind <;> simp [effectKinds] at h ⊢

theorem mem_effectKinds_call {kind : StatementKind} (h : .call ∈ effectKinds kind) :
    kind = .call := by
  cases kind <;> simp [effectKinds] at h ⊢

theorem mem_directEffects (hstmt : (ref, stmt) ∈ statementsOf ast.body)
    (h : e ∈ statementEffects ast sites variants ref stmt) :
    e ∈ directEffects ast cfg sites variants :=
  List.mem_append_right _ (List.mem_flatMap.mpr ⟨(ref, stmt), hstmt, h⟩)

/-- An effect of one of these kinds comes from a statement that has such effects. -/
theorem exists_statement_of_effect (he : e ∈ directEffects ast cfg sites variants)
    (hkind : e.effectId.kind = .commit ∨ e.effectId.kind = .call) :
    ∃ s ∈ statementsOf ast.body, e.effectId.kind ∈ effectKinds s.2.kind := by
  rcases List.mem_append.mp he with he | he
  · obtain ⟨site, -, rfl⟩ := List.mem_map.mp he
    simp [outEffect_kind] at hkind
  · obtain ⟨s, hs, he⟩ := List.mem_flatMap.mp he
    rcases (statementEffects_kind he).2 with heffect | heffect | heffect
    · simp [heffect] at hkind
    · simp [heffect] at hkind
    · exact ⟨s, hs, heffect⟩

/-- There is no `COMMIT` effect exactly when there is no such statement. -/
theorem internalCommitRefs_nil :
    internalCommitRefs (directEffects ast cfg sites variants) = [] ↔
      ∀ s ∈ statementsOf ast.body, s.2.kind ≠ .commit := by
  unfold internalCommitRefs
  rw [List.map_eq_nil_iff, List.filter_eq_nil_iff]
  constructor
  · rintro h ⟨ref, stmt⟩ hstmt hkind
    refine h (makeEffect .commit ref none none .committedEffect [])
      (mem_directEffects hstmt (List.mem_append_right _ ?_)) (by simp [makeEffect])
    simp [show stmt.kind = .commit from hkind]
  · intro h e he hkind
    have hkind : e.effectId.kind = .commit := of_decide_eq_true hkind
    obtain ⟨s, hs, heffect⟩ := exists_statement_of_effect he (.inl hkind)
    exact h s hs (mem_effectKinds_commit (hkind ▸ heffect))

/-- There is no unresolved `CALL` effect exactly when there is no such statement. -/
theorem unresolvedCalls_nil :
    unresolvedCalls (directEffects ast cfg sites variants) = [] ↔
      ∀ s ∈ statementsOf ast.body, s.2.kind ≠ .call := by
  unfold unresolvedCalls
  rw [List.map_eq_nil_iff, List.filter_eq_nil_iff]
  constructor
  · rintro h ⟨ref, stmt⟩ hstmt hkind
    refine h (makeEffect .call ref (callTarget stmt.text) none .unresolvedEffectBoundary [])
      (mem_directEffects hstmt (List.mem_append_right _ ?_)) (by simp [makeEffect])
    simp [show stmt.kind = .call from hkind]
  · intro h e he hkind
    have hkind : e.effectId.kind = .call := (of_decide_eq_true hkind).1
    obtain ⟨s, hs, heffect⟩ := exists_statement_of_effect he (.inr hkind)
    exact h s hs (mem_effectKinds_call (hkind ▸ heffect))

end Kinds

/-! ## Texts of resolved sites -/

theorem statementKind_call {text : List Char} :
    statementKind text = .call ↔ leadingWord text = "CALL".toList := by
  constructor
  · intro h
    unfold statementKind at h
    split at h
    case h_6 hword => rw [← String.toList_ofList (l := leadingWord text), hword]
    all_goals cases h
  · intro h
    unfold statementKind
    rw [h]
    rfl

theorem statementKind_commit {text : List Char} (h : leadingWord text = "COMMIT".toList) :
    statementKind text = .unknown := by
  unfold statementKind
  rw [h]
  rfl

theorem siteStatus_resolved {variants : List DynamicSqlVariant} {exceeded : Bool}
    (h : openStatus (siteStatus variants exceeded) = false) :
    ∀ v ∈ variants, v.statementKind ≠ .unknown ∧ v.placeholderNames = [] := by
  unfold siteStatus at h
  dsimp only at h
  split at h
  · cases h
  unfold resolutionStatus at h
  split at h
  · cases h
  split at h
  · cases h
  split at h
  · next hkinds =>
      split at h
      · next hplaceholders =>
          intro v hv
          exact ⟨of_decide_eq_true (List.all_eq_true.mp hkinds v hv),
            of_decide_eq_true (List.all_eq_true.mp hplaceholders v hv)⟩
      split at h
      · cases h
      · cases h
  · cases h

theorem resolved_site {site : DynamicSqlSite} {variant : DynamicSqlVariant}
    (hsite : site ∈ sitesOf ast)
    (hstatus : openStatus site.resolutionStatus = false) (hvariant : variant ∈ site.variantRefs) :
    variant.statementKind ≠ .unknown ∧ variant.concreteSql = some variant.templateText ∧
      variant.statementKind = statementKind variant.templateText.toList := by
  obtain ⟨s, -, rfl⟩ := List.mem_map.mp hsite
  unfold dynamicSite at hstatus hvariant
  split at hstatus
  · cases hstatus
  next binding hbinding =>
  rw [hbinding] at hvariant
  obtain ⟨hkind, hnames⟩ := siteStatus_resolved hstatus variant hvariant
  obtain ⟨value, -, rfl⟩ := List.mem_map.mp (List.mem_dedup.mp hvariant)
  refine ⟨hkind, ?_, ?_⟩
  · show (if value.placeholders = [] then _ else _) = _
    exact if_pos hnames
  · simp only [buildVariant, String.toList_ofList]

/-! ## Runs -/

theorem unresolvedDynamic_nil {sites : List DynamicSqlSite} :
    unresolvedDynamic sites = [] ↔ ∀ site ∈ sites, openStatus site.resolutionStatus = false := by
  unfold unresolvedDynamic
  rw [List.map_eq_nil_iff, List.filter_eq_nil_iff]
  simp only [Bool.not_eq_true]

theorem kindAt_mem {node : NodeRef} {kind : StatementKind} (h : kindAt ast node = some kind) :
    ∃ s ∈ statementsOf ast.body, s.2.kind = kind := by
  obtain ⟨stmt, hlookup, hkind⟩ := Option.map_eq_some_iff.mp h
  exact ⟨(node, stmt), mem_of_lookup hlookup, hkind⟩

section Cleared

variable {outcome : ParseOutcome} {v : Visit}
  (hclear : Clear outcome ast (effectsOf ast) (sitesOf ast))

include hclear

theorem clear_variant {variant : DynamicSqlVariant} {node : NodeRef}
    (h : RunsVariant ast node variant) :
    variant.statementKind ≠ .unknown ∧ variant.concreteSql = some variant.templateText ∧
      variant.statementKind = statementKind variant.templateText.toList := by
  obtain ⟨site, hsite, -, hvariant⟩ := h
  exact resolved_site hsite (unresolvedDynamic_nil.mp hclear.dynamic site hsite) hvariant

theorem clear_no_commit : ¬ Performs ast .commit "COMMIT" v := by
  rintro (hkind | ⟨variant, text, hruns, htext, hword⟩)
  · obtain ⟨s, hs, hkind⟩ := kindAt_mem hkind
    exact internalCommitRefs_nil.mp hclear.commits s hs hkind
  · obtain ⟨hknown, htemplate, hkind⟩ := clear_variant hclear hruns
    obtain rfl := Option.some.inj (htemplate.symm.trans htext)
    exact hknown (hkind.trans (statementKind_commit hword))

theorem clear_calls_iff :
    Performs ast .call "CALL" v ↔
      ∃ variant, RunsVariant ast v.node variant ∧ variant.statementKind = .call := by
  constructor
  · rintro (hkind | ⟨variant, text, hruns, htext, hword⟩)
    · obtain ⟨s, hs, hkind⟩ := kindAt_mem hkind
      exact absurd hkind (unresolvedCalls_nil.mp hclear.calls s hs)
    · obtain ⟨-, htemplate, hkind⟩ := clear_variant hclear hruns
      obtain rfl := Option.some.inj (htemplate.symm.trans htext)
      exact ⟨variant, hruns, hkind.trans (statementKind_call.mpr hword)⟩
  · rintro ⟨variant, hruns, hcall⟩
    obtain ⟨-, htemplate, hkind⟩ := clear_variant hclear hruns
    exact .inr ⟨variant, _, hruns, htemplate, statementKind_call.mp (hkind ▸ hcall)⟩

/-- A cleared procedure is contained in all its runs exactly when no run gets to a text that is a
`CALL`. -/
theorem clear_contained_iff (collate : Char → Nat) (M : ConditionModel) :
    (∀ visits c, StepsBy (.sql collate) M (procedureScope ast) (start ast) visits c →
      Contained ast visits) ↔ NoDynamicCall collate M ast := by
  constructor
  · intro h visits c steps v hv variant hruns hcall
    exact (h visits c steps v hv).2 ((clear_calls_iff hclear).mpr ⟨variant, hruns, hcall⟩)
  · intro h visits c steps v hv
    refine ⟨clear_no_commit hclear, fun hperforms => ?_⟩
    obtain ⟨variant, hruns, hcall⟩ := (clear_calls_iff hclear).mp hperforms
    exact h visits c steps v hv variant hruns hcall

end Cleared

theorem not_clear_iff {outcome : ParseOutcome} :
    ¬ Clear outcome ast (effectsOf ast) (sitesOf ast) ↔
      outcome ≠ .parsesComplete ∨ declaredCommitOnReturn ast ≠ .no ∨
        (∃ s ∈ statementsOf ast.body, s.2.kind = .commit ∨ s.2.kind = .call) ∨
        ∃ site ∈ sitesOf ast, openStatus site.resolutionStatus = true := by
  constructor
  · intro h
    by_contra hnone
    simp only [not_or, not_exists, not_and, not_not, Bool.not_eq_true] at hnone
    obtain ⟨houtcome, hreturn, hstatements, hsites⟩ := hnone
    exact h ⟨houtcome, hreturn, internalCommitRefs_nil.mpr fun s hs => (hstatements s hs).1,
      unresolvedCalls_nil.mpr fun s hs => (hstatements s hs).2, unresolvedDynamic_nil.mpr hsites⟩
  · rintro h hclear
    rcases h with h | h | ⟨s, hs, h | h⟩ | ⟨site, hsite, h⟩
    · exact h hclear.outcome
    · exact h hclear.commitOnReturn
    · exact internalCommitRefs_nil.mp hclear.commits s hs h
    · exact unresolvedCalls_nil.mp hclear.calls s hs h
    · rw [unresolvedDynamic_nil.mp hclear.dynamic site hsite] at h
      cases h

/-- **The safety gate.** A procedure that the assessment allows never commits or calls a routine,
exactly if it is not allowed at all or none of its runs gets to a dynamic statement with a `CALL`
among its texts. -/
theorem gate_contains_iff (collate : Char → Nat) (M : ConditionModel) (outcome : ParseOutcome)
    (ast : ProcedureAst) :
    ((∃ a, assess ⟨outcome, some ast⟩ (effectsOf ast) (sitesOf ast) = .ok a ∧ a.Allows) →
      ∀ visits c, StepsBy (.sql collate) M (procedureScope ast) (start ast) visits c →
        Contained ast visits) ↔
      (outcome ≠ .parsesComplete ∨ declaredCommitOnReturn ast ≠ .no ∨
        (∃ s ∈ statementsOf ast.body, s.2.kind = .commit ∨ s.2.kind = .call) ∨
        ∃ site ∈ sitesOf ast, openStatus site.resolutionStatus = true) ∨
      NoDynamicCall collate M ast := by
  rw [assess_allows_iff, ← not_clear_iff]
  by_cases hclear : Clear outcome ast (effectsOf ast) (sitesOf ast)
  · constructor
    · intro h
      exact .inr ((clear_contained_iff hclear collate M).mp (h hclear))
    · rintro (h | h) -
      · exact absurd hclear h
      · exact (clear_contained_iff hclear collate M).mpr h
  · exact ⟨fun _ => .inl hclear, fun _ h => absurd h hclear⟩

/-- `EXECUTE IMMEDIATE 'CALL P()'`. -/
def callInText : ProcedureAst where
  nodeId := "procedure"
  parameters := []
  commitOnReturn := some "NO"
  body :=
    [.simple "execute" {
      kind := .executeImmediate
      text := "EXECUTE IMMEDIATE 'CALL P()'"
      execute := some { executionKind := .immediate, sourceExpression := some "'CALL P()'" } }]
  distinct := by decide

theorem sitesOf_callInText :
    sitesOf callInText =
    [⟨"execute", .staticallyReconstructed, [buildVariant ⟨"CALL P()", [], []⟩]⟩] := by
  decide +kernel

/-- The text is known, and the effect is not one of kind `CALL`: the procedure is allowed to run. -/
theorem call_in_text_escapes :
    (∃ a,
      assess ⟨.parsesComplete, some callInText⟩ (effectsOf callInText)
      (sitesOf callInText) = .ok a ∧
      a.Allows) ∧
    ∃ visits c, StepsBy (.sql Char.toNat) .single (procedureScope callInText) (start callInText)
      visits c ∧ ¬ Contained callInText visits := by
  have hstatements : ∀ s ∈ statementsOf callInText.body, s.2.kind ≠ .commit ∧ s.2.kind ≠ .call := by
    decide
  have hclear : Clear .parsesComplete callInText (effectsOf callInText) (sitesOf callInText) := by
    refine ⟨rfl, by decide +kernel, internalCommitRefs_nil.mpr fun s hs => (hstatements s hs).1,
      unresolvedCalls_nil.mpr fun s hs => (hstatements s hs).2, unresolvedDynamic_nil.mpr ?_⟩
    rw [sitesOf_callInText]
    decide
  refine ⟨assess_allows_iff.mpr hclear, [⟨"execute", .completed⟩], _,
    Run.single (StepBy.complete rfl), fun hcontained => ?_⟩
  refine (hcontained _ (List.mem_singleton.mpr rfl)).2 ((clear_calls_iff hclear).mpr
    ⟨buildVariant ⟨"CALL P()", [], []⟩, ?_, by decide +kernel⟩)
  unfold RunsVariant
  rw [sitesOf_callInText]
  exact ⟨_, List.mem_singleton.mpr rfl, rfl, List.mem_singleton.mpr rfl⟩

end AtlasDb.Semantics
