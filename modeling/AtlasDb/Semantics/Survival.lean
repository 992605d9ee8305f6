import AtlasDb.Analysis.HandlerFlow
import AtlasDb.Analysis.Transaction
import AtlasDb.Semantics.Simulation

/-!
# What a survival classification says about executions

`MUST_COMMIT` and `MUST_ROLLBACK` are verdicts about the first transaction boundary after a change.
The search runs over the graph, so the verdict holds of every execution that follows the graph from
the change on (`survival_of_regular_run`), provided that

* a `COMMIT` or `ROLLBACK` does not fail into a handler, since the search ends there, and
* for `MUST_ROLLBACK`, the first `ROLLBACK` undoes the change: the search takes a
  `ROLLBACK TO SAVEPOINT` for a full one.

What comes before the change does not matter.
-/

namespace AtlasDb.Semantics

open Core Lib Parsing Analysis

/-! ## What an execution does to a change -/

/-- A statement of this kind completed. -/
def Executes (ast : ProcedureAst) (kind : StatementKind) (v : Visit) : Prop :=
  kindAt ast v.node = some kind ∧ v.outcome = .completed

/-- The name after the word `SAVEPOINT`. -/
def savepointName (text : String) : Option String :=
  ((statementTokens text).dropWhile (·.upper ≠ "SAVEPOINT"))[1]?.map fun t => foldLabel t.value

def savepointAt (ast : ProcedureAst) (v : Visit) : Option String :=
  ((statementsOf ast.body).lookup v.node).bind fun stmt => savepointName stmt.text

/-- A `ROLLBACK` after the visits `since` undoes the change made before them: it is not one to a
savepoint that was set in the meantime. -/
def Undoes (ast : ProcedureAst) (since : List Visit) (v : Visit) : Prop :=
  Executes ast .rollback v ∧
    ∀ name, savepointAt ast v = some name →
      ∀ u ∈ since, Executes ast .savepoint u → savepointAt ast u ≠ some name

/-- No `ROLLBACK` without an earlier `COMMIT`. -/
def CommitsFirst (ast : ProcedureAst) (visits : List Visit) : Prop :=
  ∀ before v after, visits = before ++ v :: after → Executes ast .rollback v →
    ∃ u ∈ before, Executes ast .commit u

/-- Among the visits is a `ROLLBACK` that undoes the change made before them. -/
def UndoneIn (ast : ProcedureAst) (visits : List Visit) : Prop :=
  ∃ since v after, visits = since ++ v :: after ∧ Undoes ast since v

/-- No `COMMIT` and no normal return without an earlier `ROLLBACK` that undoes the change. -/
def RollsBackFirst (ast : ProcedureAst) (visits : List Visit) (c : Config) : Prop :=
  (∀ before v after, visits = before ++ v :: after → Executes ast .commit v →
    UndoneIn ast before) ∧
  (c = .returned → UndoneIn ast visits)

/-! ## The set the search explores -/

/-- The search for the first boundaries ends at these statements. -/
def IsBoundary (ast : ProcedureAst) (ref : NodeRef) : Prop :=
  kindAt ast ref = some .commit ∨ kindAt ast ref = some .rollback

/-- The nodes the search comes to from a statement. -/
def Explored (ast : ProcedureAst) (source : NodeRef) (ref : CfgRef) : Prop :=
  (ref, false) ∈ visitedStates (kindAt ast) (commitOnReturnOf ast.commitOnReturn) none
    (cfgEdges ast) (.ast source)

section Search

variable {ast : ProcedureAst} (source : NodeRef)

theorem explored_of_edge {s : SearchState} {e : CfgEdge} (he : e ∈ cfgEdges ast)
    (hs : s ∈ visitedStates (kindAt ast) (commitOnReturnOf ast.commitOnReturn) none
      (cfgEdges ast) (.ast source))
    (hsource : e.source = s.1) (hkind : s.2 = true → e.kind ≠ .handler)
    (hinner : boundaryOutcome (kindAt ast) (commitOnReturnOf ast.commitOnReturn) none s = none) :
    Explored ast source e.target := by
  rw [mem_visitedStates_iff] at hs
  refine mem_visitedStates_iff.mpr (.tail hs ?_)
  simp only [searchSuccessors, hinner, Option.isSome_none, Bool.false_eq_true, if_false]
  refine List.mem_map.mpr ⟨e, List.mem_filter.mpr ⟨he, ?_⟩, rfl⟩
  cases hb : s.2 with
  | true => simpa [hsource] using hkind hb
  | false => simp [hsource]

theorem explored_closed : ClosedUnless ast (IsBoundary ast) (Explored ast source) := by
  intro e he node hsource hnode hinner
  refine explored_of_edge source he hnode hsource (by simp) ?_
  simp only [boundaryOutcome]
  split
  · next hkind => exact absurd (.inl hkind) hinner
  · next hkind => exact absurd (.inr hkind) hinner
  · rfl

theorem explored_next {stmt : Statement} {ns : List Node} {k : List Frame}
    (hplaced : CodePlaced ast (.simple source stmt :: ns) k)
    (hkind : isOrdinary stmt.kind = true) : Explored ast source (seqEntry ns (contRef k)) := by
  have hdecl := isDeclaration_of_isOrdinary source hkind
  have hedge := hplaced.statementEdge hdecl
  have hnext := explored_of_edge source hedge (mem_visitedStates_iff.mpr .refl)
    (statementEdge_source ..)
    (fun _ => by unfold statementEdge; split <;> simp) rfl
  rwa [statementEdge_target hkind] at hnext

end Search

/-! ## The first boundary of a run -/

section FirstBoundary

variable {collate : Char → Nat} {M : ConditionModel} {ast : ProcedureAst} {source : NodeRef}
  {stmt : Statement} {ns : List Node} {k : List Frame} {visits : List Visit} {c : Config}
  {o : TransactionPathOutcome}
  (hplaced : Placed ast (.run (.simple source stmt :: ns) k)) (hkind : isOrdinary stmt.kind = true)
  (hnode : .ast source ∈ (ControlFlowGraph.build ast).nodes)

include hplaced hkind hnode

theorem outcome_of_first_boundary {before after : List Visit} {v : Visit}
    (run : Run (RegularStep collate M ast k) (.run ns k) (before ++ v :: after) c)
    (hfirst : ∀ u ∈ before, ¬ IsBoundary ast u.node)
    (ho : boundaryOutcome (kindAt ast) (commitOnReturnOf ast.commitOnReturn) none
      (.ast v.node, false) = some o) :
    o ∈ (reachableOutcomes ast (.build ast) none source).1 := by
  have htracked : Tracked (Explored ast source) k (.run ns k) :=
    tracked_base (.run ns k) (explored_next source hplaced.1 hkind)
  have hexplored :=
    run_visit_mem (explored_closed source) run ⟨hplaced.1.tail, hplaced.2⟩ htracked hfirst
  exact mem_reachableOutcomes hnode hexplored ho

theorem outcome_of_return (run : Run (RegularStep collate M ast k) (.run ns k) visits .returned)
    (hnone : ∀ u ∈ visits, ¬ IsBoundary ast u.node) :
    .commitOnReturn ∈ (reachableOutcomes ast (.build ast) none source).1 ∨
      .normalExitCallerControlled ∈ (reachableOutcomes ast (.build ast) none source).1 := by
  have htracked : Tracked (Explored ast source) k (.run ns k) :=
    tracked_base (.run ns k) (explored_next source hplaced.1 hkind)
  obtain ⟨-, hend⟩ :=
    run_tracked (explored_closed source) run ⟨hplaced.1.tail, hplaced.2⟩ htracked hnone
  have hmem := fun {o} => @mem_reachableOutcomes o ast (.build ast) none source (.normalExit, false)
    hnode hend.here
  by_cases hyes : commitOnReturnOf ast.commitOnReturn = .yes
  · exact .inl (hmem (by simp [boundaryOutcome, hyes]))
  · exact .inr (hmem (by simp [boundaryOutcome, hyes]))

omit hplaced hkind hnode in
theorem executes_of_kind {kind : StatementKind} {v : Visit}
    (hcomplete : v.outcome = .raised → ¬ IsBoundary ast v.node)
    (hboundary : IsBoundary ast v.node) (hkind : kindAt ast v.node = some kind) :
    Executes ast kind v := by
  refine ⟨hkind, ?_⟩
  cases hout : v.outcome with
  | completed => rfl
  | raised => exact absurd hboundary (hcomplete hout)

end FirstBoundary

/-! ## Soundness -/

/-- No `COMMIT` or `ROLLBACK` fails into a handler. -/
def BoundariesComplete (ast : ProcedureAst) (visits : List Visit) : Prop :=
  ∀ v ∈ visits, v.outcome = .raised → ¬ IsBoundary ast v.node

/-- The first `ROLLBACK`, if any, undoes the change. -/
def FirstRollbackUndoes (ast : ProcedureAst) (visits : List Visit) : Prop :=
  ∀ before v after, visits = before ++ v :: after → Executes ast .rollback v →
    (∀ u ∈ before, ¬ Executes ast .rollback u) → Undoes ast before v

/-- What the classification promises of an execution: `visits` are those after the change, `c` is
where it ends. -/
def Survives (ast : ProcedureAst) (classification : TransactionSurvivalClassification)
    (visits : List Visit) (c : Config) : Prop :=
  (classification = .mustCommit → CommitsFirst ast visits) ∧
  (classification = .mustRollback → RollsBackFirst ast visits c)

section Sound

variable {collate : Char → Nat} {M : ConditionModel} {ast : ProcedureAst} {source : NodeRef}
  {stmt : Statement} {ns : List Node} {k : List Frame} {visits : List Visit} {c : Config}
  (hplaced : Placed ast (.run (.simple source stmt :: ns) k)) (hkind : isOrdinary stmt.kind = true)
  (hnode : .ast source ∈ (ControlFlowGraph.build ast).nodes)

include hplaced hkind hnode

theorem commitsFirst_of_mustCommit (run : Run (RegularStep collate M ast k) (.run ns k) visits c)
    (hcomplete : BoundariesComplete ast visits)
    (hclass : classify (reachableOutcomes ast (.build ast) none source).1 = .mustCommit) :
    CommitsFirst ast visits := by
  rintro before v after rfl ⟨hv, -⟩
  by_cases hearlier : ∃ u ∈ before, IsBoundary ast u.node
  · obtain ⟨first, u, rest, rfl, hu, hfirst⟩ := exists_first hearlier
    have hmem : u ∈ first ++ u :: rest := by simp
    rw [List.append_assoc, List.cons_append] at run
    rcases hu with hcommit | hrollback
    · have hexec := executes_of_kind (hcomplete u (by simp)) (.inl hcommit) hcommit
      exact ⟨u, hmem, hexec⟩
    · have hout := outcome_of_first_boundary (o := .explicitRollback) hplaced hkind hnode run hfirst
        (by simp [boundaryOutcome, hrollback])
      simpa using classify_mustCommit hclass hout (by decide)
  · have hfirst : ∀ u ∈ before, ¬ IsBoundary ast u.node := fun u hu hb => hearlier ⟨u, hu, hb⟩
    have hout := outcome_of_first_boundary (o := .explicitRollback) hplaced hkind hnode run hfirst
      (by simp [boundaryOutcome, hv])
    simpa using classify_mustCommit hclass hout (by decide)

theorem undoneIn_of_boundary {before after : List Visit}
    (run : Run (RegularStep collate M ast k) (.run ns k) (before ++ after) c)
    (hcomplete : BoundariesComplete ast (before ++ after))
    (hundo : FirstRollbackUndoes ast (before ++ after))
    (hclass : classify (reachableOutcomes ast (.build ast) none source).1 = .mustRollback)
    (hearlier : ∃ u ∈ before, IsBoundary ast u.node) : UndoneIn ast before := by
  obtain ⟨first, u, rest, rfl, hu, hfirst⟩ := exists_first hearlier
  rw [List.append_assoc, List.cons_append] at run
  rcases hu with hcommit | hrollback
  · have hout := outcome_of_first_boundary (o := .explicitCommit) hplaced hkind hnode run hfirst
      (by simp [boundaryOutcome, hcommit])
    simpa using classify_mustRollback hclass hout (by decide)
  · have hexec := executes_of_kind (hcomplete u (by simp)) (.inr hrollback) hrollback
    refine ⟨first, u, rest, rfl, hundo first u (rest ++ after) (by simp) hexec ?_⟩
    exact fun w hw hrollback => hfirst w hw (.inr hrollback.1)

theorem rollsBackFirst_of_mustRollback
    (run : Run (RegularStep collate M ast k) (.run ns k) visits c)
    (hcomplete : BoundariesComplete ast visits) (hundo : FirstRollbackUndoes ast visits)
    (hclass : classify (reachableOutcomes ast (.build ast) none source).1 = .mustRollback) :
    RollsBackFirst ast visits c := by
  constructor
  · rintro before v after rfl ⟨hv, -⟩
    by_cases hearlier : ∃ u ∈ before, IsBoundary ast u.node
    · exact undoneIn_of_boundary hplaced hkind hnode run hcomplete hundo hclass hearlier
    · have hfirst : ∀ u ∈ before, ¬ IsBoundary ast u.node := fun u hu hb => hearlier ⟨u, hu, hb⟩
      have hout := outcome_of_first_boundary (o := .explicitCommit) hplaced hkind hnode run hfirst
        (by simp [boundaryOutcome, hv])
      simpa using classify_mustRollback hclass hout (by decide)
  · rintro rfl
    by_cases hearlier : ∃ u ∈ visits, IsBoundary ast u.node
    · rw [← List.append_nil visits] at run hcomplete hundo
      exact undoneIn_of_boundary hplaced hkind hnode run hcomplete hundo hclass hearlier
    · have hnone : ∀ u ∈ visits, ¬ IsBoundary ast u.node := fun u hu hb => hearlier ⟨u, hu, hb⟩
      rcases outcome_of_return hplaced hkind hnode run hnone with hout | hout
      · simpa using classify_mustRollback hclass hout (by decide)
      · simpa using classify_mustRollback hclass hout (by decide)

end Sound

/-- Every analysis without a caller contract is about an effect, and holds of every execution in
which the statement of the effect completes and that goes along the graph from there. -/
theorem survival_of_regular_run (collate : Char → Nat) (M : ConditionModel) (ast : ProcedureAst)
    (effects : List EffectCandidate) {a : EffectTransactionAnalysis}
    (ha : a ∈ (analyzeTransactions ast (.build ast) effects none).2.2) :
    ∃ e ∈ effects, a.effectRef = e.effectId ∧
      ∀ pre stmt ns k visits c,
        StepsBy (.sql collate) M (procedureScope ast) (start ast) pre
          (.run (.simple e.sourceNodeRef stmt :: ns) k) →
        isOrdinary stmt.kind = true →
        Run (RegularStep collate M ast k) (.run ns k) visits c →
        BoundariesComplete ast visits →
        (a.classification = .mustRollback → FirstRollbackUndoes ast visits) →
        Survives ast a.classification visits c := by
  obtain ⟨e, he, rfl⟩ := List.mem_map.mp ha
  refine ⟨e, (List.mem_filter.mp he).1, rfl, ?_⟩
  intro pre stmt ns k visits c hpre hkind run hcomplete hundo
  have hplaced := placed_run hpre (placed_start ast)
  by_cases hnode : .ast e.sourceNodeRef ∈ (ControlFlowGraph.build ast).nodes
  · constructor
    · intro hclass
      exact commitsFirst_of_mustCommit hplaced hkind hnode run hcomplete hclass
    · intro hclass
      exact rollsBackFirst_of_mustRollback hplaced hkind hnode run hcomplete (hundo hclass) hclass
  · -- a source without a node of the graph gets no definite classification
    have hclass : (analyzeEffect ast (.build ast) none e).classification
        = .callerControlledOrExceptional := by
      simp only [analyzeEffect, reachableOutcomes, if_neg hnode]
      decide
    simp [Survives, hclass]

/-- The effect of an `UPDATE T`. -/
def updateOf (node : NodeRef) : EffectCandidate where
  effectId := ⟨.dml, node, some "T", none, .transactionSurvivalUnresolved⟩
  observability := .transactionSurvivalUnresolved

/-- `SELECT B INTO V FROM U` -/
def selectB : Statement where
  kind := .selectInto
  text := "SELECT B INTO V FROM U"
  selectIntoTargets := some ["V"]

def continueOnNotFound : Handler :=
  ⟨"handler", { handlerKind := .continue, handledConditionText := "NOT FOUND" }, []⟩

/-- An update, a query whose empty result is ignored, and a commit. -/
def commitAfterQuery : ProcedureAst where
  nodeId := "procedure"
  parameters := []
  commitOnReturn := none
  body :=
    [.handler "handler" continueOnNotFound.region [],
     .simple "update" { kind := .dml, text := "UPDATE T SET A = 1" },
     .simple "select" selectB,
     .simple "commit" { kind := .commit, text := "COMMIT" },
     .simple "rollback" { kind := .rollback, text := "ROLLBACK" }]
  distinct := by decide

/-- The update is committed first also when the query raises and the handler resumes after it. -/
theorem survival_after_resumed_query :
    (analyzeEffect commitAfterQuery (.build commitAfterQuery) none
      (updateOf "update")).classification
      = .mustCommit ∧
    Survives commitAfterQuery .mustCommit
      [⟨"select", .raised⟩, ⟨"handler", .completed⟩, ⟨"commit", .completed⟩,
       ⟨"rollback", .completed⟩] .returned := by
  have hclass : (analyzeEffect commitAfterQuery (.build commitAfterQuery) none
      (updateOf "update")).classification = .mustCommit := by decide +kernel
  refine ⟨hclass, ?_⟩
  obtain ⟨e, he, -, hsurvives⟩ := survival_of_regular_run Char.toNat .single commitAfterQuery
    [updateOf "update"] (a := analyzeEffect commitAfterQuery (.build commitAfterQuery) none
      (updateOf "update")) (List.mem_singleton.mpr rfl)
  obtain rfl := List.mem_singleton.mp he
  rw [hclass] at hsurvives
  have htakes : TakesBy (.sql Char.toNat) .single
      (activeScopes (procedureScope commitAfterQuery) none []) selectB () continueOnNotFound :=
    ⟨[], _, [], [], [], rfl, rfl, ⟨trivial, trivial⟩, by simp, by simp⟩
  have hcomplete : BoundariesComplete commitAfterQuery
    [⟨"select", .raised⟩, ⟨"handler", .completed⟩,
      ⟨"commit", .completed⟩, ⟨"rollback", .completed⟩] := by
    unfold BoundariesComplete IsBoundary
    decide
  refine hsurvives [] { kind := .dml, text := "UPDATE T SET A = 1" }
    (commitAfterQuery.body.drop 2) []
    _ _ (Run.single (StepBy.declaration rfl)) rfl ?_ hcomplete nofun
  exact Run.head (RegularStep.raise rfl rfl (by decide) htakes) <|
    Run.head (RegularStep.resume rfl rfl (by simp)) <| Run.head (RegularStep.complete rfl) <|
    Run.head (RegularStep.complete rfl) <| Run.single RegularStep.finish

/-- An update, a block that commits unless its query fails, and a rollback. -/
def exitBeforeCommit : ProcedureAst where
  nodeId := "procedure"
  parameters := []
  commitOnReturn := some "YES"
  body :=
    [.simple "update" { kind := .dml, text := "UPDATE T SET A = 1" },
     .compound "block" none "BEGIN"
       [.handler "handler" exitHandler.region [],
        .simple "select" selectB,
        .simple "commit" { kind := .commit, text := "COMMIT" }],
     .simple "rollback" { kind := .rollback, text := "ROLLBACK" }]
  distinct := by decide

/-- The handler of the block is taken to end the procedure, but the procedure goes on after the
block and rolls the update back. -/
theorem survival_broken_by_nested_exit :
    ∃ a ∈ (analyzeTransactions exitBeforeCommit (.build exitBeforeCommit) [updateOf "update"]
        none).2.2,
      a.effectRef = (updateOf "update").effectId ∧ a.classification = .mustCommit ∧
      ∃ stmt ns visits,
        StepsBy (.sql Char.toNat) .single (procedureScope exitBeforeCommit)
        (start exitBeforeCommit) []
          (.run (.simple "update" stmt :: ns) []) ∧
        isOrdinary stmt.kind = true ∧
        StepsBy (.sql Char.toNat) .single (procedureScope exitBeforeCommit) (.run ns []) visits
          .returned ∧
        ¬ Survives exitBeforeCommit a.classification visits .returned := by
  refine ⟨analyzeEffect exitBeforeCommit (.build exitBeforeCommit) none (updateOf "update"),
    List.mem_singleton.mpr rfl, rfl,
    by decide +kernel, { kind := .dml, text := "UPDATE T SET A = 1" },
    exitBeforeCommit.body.drop 1, [⟨"block", .completed⟩, ⟨"select", .raised⟩,
      ⟨"handler", .completed⟩, ⟨"rollback", .completed⟩], Run.refl, rfl, ?_, ?_⟩
  · have htakes : TakesBy (.sql Char.toNat) .single
        (activeScopes (procedureScope exitBeforeCommit) none
          [.block none [exitHandler]
            [.simple "rollback" { kind := .rollback, text := "ROLLBACK" }]])
        selectB () exitHandler :=
      ⟨[], _, _, [], [], rfl, rfl, ⟨trivial, trivial⟩, by simp, by simp⟩
    exact Run.head StepBy.compound <| Run.head (StepBy.declaration rfl) <|
      Run.head (StepBy.raise (.statement (.inl rfl)) (by decide) htakes) <|
      Run.head (StepBy.exitBlock (by decide) rfl) <| Run.head (StepBy.complete rfl) <|
      Run.single StepBy.finish
  · intro hsurvives
    have hclass : (analyzeEffect exitBeforeCommit (.build exitBeforeCommit) none
        (updateOf "update")).classification = .mustCommit := by decide +kernel
    obtain ⟨u, hu, hcommit, -⟩ := hsurvives.1 hclass
      [⟨"block", .completed⟩, ⟨"select", .raised⟩, ⟨"handler", .completed⟩]
      ⟨"rollback", .completed⟩ [] rfl ⟨by decide, rfl⟩
    have hnone : ∀ u ∈ [(⟨"block", .completed⟩ : Visit), ⟨"select", .raised⟩,
        ⟨"handler", .completed⟩], kindAt exitBeforeCommit u.node ≠ some .commit := by decide
    exact hnone u hu hcommit

end AtlasDb.Semantics
