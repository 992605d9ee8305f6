import AtlasDb.Analysis.Bundles

/-!
# The dominance walk

`_graphs` and `_dominates` of `analysis/bundles.py`, with the dictionaries as the library returns
them. What `_dominates` says of two nodes is what the paths through the control flow graph say, for
the dominators of a node and, on the reversed graph with its sink, for its postdominators.
-/

namespace AtlasDb.Analysis

open Core Lib Parsing

variable (cfg : ControlFlowGraph)

/-- The nodes of `path` lead from `a` to `b` in the graph. -/
abbrev CfgPath (a : CfgRef) (path : List CfgRef) (b : CfgRef) : Prop :=
  Path (EdgeIn (graphEdges cfg)) a path b

def CfgReaches (a b : CfgRef) : Prop := ∃ path, CfgPath cfg a path b

/-- The normal exit and the exceptional one. -/
def IsExit (ref : CfgRef) : Prop := ref = .normalExit ∨ ref = .exceptionalExit

variable {cfg}

theorem cfgReaches_iff {a b : CfgRef} :
    CfgReaches cfg a b ↔ Relation.ReflTransGen (EdgeIn (graphEdges cfg)) a b := by
  constructor
  · rintro ⟨path, hpath⟩
    induction hpath with
    | single => exact .refl
    | cons hstep _ ih => exact .head hstep ih
  · intro hpath
    induction hpath using Relation.ReflTransGen.head_induction_on with
    | refl => exact ⟨_, .single b⟩
    | head hstep _ ih =>
      obtain ⟨path, hpath⟩ := ih
      exact ⟨_, .cons hstep hpath⟩

theorem edgeIn_postEdges :
    EdgeIn (postEdges cfg) = sinkEdge (EdgeIn (graphEdges cfg)) IsExit := by
  funext a b
  refine propext ?_
  have hedge : EdgeIn (postEdges cfg) a b ↔ (a = none ∧ b = some .normalExit) ∨
      (a = none ∧ b = some .exceptionalExit) ∨
        ∃ x y, (x, y) ∈ graphEdges cfg ∧ some y = a ∧ some x = b := by
    simp [EdgeIn, postEdges]
  rw [hedge]
  cases a with
  | none =>
    cases b with
    | none => simp [sinkEdge]
    | some b => simp [sinkEdge, IsExit]
  | some a =>
    cases b with
    | none => simp [sinkEdge]
    | some b => simp [sinkEdge, EdgeIn]

/-- **The walk is exact**: `_dominates` ends for every two nodes. With the dominators it holds of a
node that the entry reaches iff every path from the entry goes through the candidate; with the
postdominators it holds of a node that reaches an exit iff every path to an exit does; of the other
nodes it holds for themselves alone. -/
theorem dominates_exact (nx : DominatorLibrary) (cfg : ControlFlowGraph)
    (candidate target : CfgRef) :
    (∃ answer, LoopAnswers (dominators nx cfg) candidate target answer ∧
      (CfgReaches cfg .entry target → (answer = true ↔
        ∀ path, CfgPath cfg .entry path target → candidate ∈ path)) ∧
      (¬ CfgReaches cfg .entry target → (answer = true ↔ candidate = target))) ∧
    (∃ answer, LoopAnswers (postdominators nx cfg) (some candidate) (some target) answer ∧
      ((∃ exit, IsExit exit ∧ CfgReaches cfg target exit) → (answer = true ↔
        ∀ exit, IsExit exit → ∀ path, CfgPath cfg target path exit → candidate ∈ path)) ∧
      ((¬ ∃ exit, IsExit exit ∧ CfgReaches cfg target exit) →
        (answer = true ↔ candidate = target))) := by
  constructor
  · have hdict : DominatorDict (EdgeIn (graphEdges cfg)) .entry (dominators nx cfg) := nx.spec _ _
    refine ⟨_, dominatesAnswer_returns hdict candidate target, fun h => ?_, fun h => ?_⟩
    · rw [dominatesAnswer_iff hdict (cfgReaches_iff.mp h), dominates_iff]
    · exact dominatesAnswer_unreachable hdict fun hreach => h (cfgReaches_iff.mpr hreach)
  · have hdict : DominatorDict (EdgeIn (postEdges cfg)) none (postdominators nx cfg) := nx.spec _ _
    have hreach : Relation.ReflTransGen (EdgeIn (postEdges cfg)) none (some target) ↔
        ∃ exit, IsExit exit ∧ CfgReaches cfg target exit := by
      rw [edgeIn_postEdges, reaches_sink_iff]
      simp only [cfgReaches_iff]
    refine ⟨_, dominatesAnswer_returns hdict (some candidate) (some target), fun h => ?_,
      fun h => ?_⟩
    · rw [dominatesAnswer_iff hdict (hreach.mpr h), edgeIn_postEdges, dominates_sink_iff]
    · rw [dominatesAnswer_unreachable hdict fun hpath => h (hreach.mp hpath), Option.some_inj]

/-- A loop that a branch leaves with RETURN, and a SIGNAL behind it. -/
def returnInLoop : ProcedureAst where
  nodeId := "procedure"
  parameters := []
  commitOnReturn := none
  body :=
    [.loop "loop" { loopKind := .while, conditionText := some "N > 0" }
      [.simple "update" { kind := .dml, text := "UPDATE T SET A = 1", startOffset := 10 },
       .ifRegion "if" [.mk ⟨"arm", .if, some "X = 1"⟩
         [.simple "return" { kind := .return, text := "RETURN", startOffset := 30 }]]],
     .simple "signal" { kind := .signal, text := "SIGNAL SQLSTATE '75000'", startOffset := 50 }]
  distinct := by decide

def returnInLoopGraph : ControlFlowGraph := .build returnInLoop

/-- What the walk says of the loop, its branch and the two exits. -/
theorem dominates_exact_returnInLoop :
    (∀ path, CfgPath returnInLoopGraph .entry path (.ast "return") → .ast "update" ∈ path) ∧
    (¬ ∀ path, CfgPath returnInLoopGraph .entry path (.ast "signal") → .ast "update" ∈ path) ∧
    (∀ exit, IsExit exit → ∀ path, CfgPath returnInLoopGraph (.ast "update") path exit →
      .ast "if" ∈ path) ∧
    ¬ ∀ exit, IsExit exit → ∀ path, CfgPath returnInLoopGraph (.ast "loop") path exit →
      .ast "signal" ∈ path := by
  have hedge : ∀ {a b : CfgRef}, (a, b) ∈ graphEdges returnInLoopGraph →
      EdgeIn (graphEdges returnInLoopGraph) a b := id
  have hentry : CfgReaches returnInLoopGraph .entry (.ast "return") :=
    ⟨_, .cons (b := .ast "loop") (hedge (by decide)) <|
      .cons (b := .ast "update") (hedge (by decide)) <|
      .cons (b := .ast "if") (hedge (by decide)) <| .cons (b := .ast "arm") (hedge (by decide)) <|
        .cons (hedge (by decide)) (.single _)⟩
  have hsignal : CfgReaches returnInLoopGraph .entry (.ast "signal") :=
    ⟨_, .cons (b := .ast "loop") (hedge (by decide)) <| .cons (hedge (by decide)) (.single _)⟩
  have hreturn : CfgReaches returnInLoopGraph (.ast "update") .normalExit :=
    ⟨_, .cons (b := .ast "if") (hedge (by decide)) <| .cons (b := .ast "arm") (hedge (by decide)) <|
      .cons (b := .ast "return") (hedge (by decide)) <| .cons (hedge (by decide)) (.single _)⟩
  have hraise : CfgReaches returnInLoopGraph (.ast "loop") .exceptionalExit :=
    ⟨_, .cons (b := .ast "signal") (hedge (by decide)) <| .cons (hedge (by decide)) (.single _)⟩
  -- what the walk answers on the computed dictionaries
  have hanswer : ∀ {candidate target : NodeRef} {a : Bool},
      dominatesRef dominatorLibrary returnInLoopGraph candidate target = a →
      LoopAnswers (dominators dominatorLibrary returnInLoopGraph) (.ast candidate)
        (.ast target) a :=
    fun h => h ▸ dominatesAnswer_returns (dominatorLibrary.spec _ _) _ _
  have hpost : ∀ {candidate target : NodeRef} {a : Bool},
      postdominatesRef dominatorLibrary returnInLoopGraph candidate target = a →
      LoopAnswers (postdominators dominatorLibrary returnInLoopGraph) (some (.ast candidate))
        (some (.ast target)) a :=
    fun h => h ▸ dominatesAnswer_returns (dominatorLibrary.spec _ _) _ _
  refine ⟨?_, ?_, ?_, ?_⟩
  · obtain ⟨⟨answer, hreturns, hreached, -⟩, -⟩ :=
      dominates_exact dominatorLibrary returnInLoopGraph (.ast "update") (.ast "return")
    exact (hreached hentry).mp (hreturns.unique (hanswer (by decide +kernel)))
  · obtain ⟨⟨answer, hreturns, hreached, -⟩, -⟩ :=
      dominates_exact dominatorLibrary returnInLoopGraph (.ast "update") (.ast "signal")
    rw [← hreached hsignal, hreturns.unique (hanswer (a := false) (by decide +kernel))]
    exact Bool.false_ne_true
  · obtain ⟨-, answer, hreturns, hreached, -⟩ :=
      dominates_exact dominatorLibrary returnInLoopGraph (.ast "if") (.ast "update")
    exact (hreached ⟨_, .inl rfl, hreturn⟩).mp (hreturns.unique (hpost (by decide +kernel)))
  · obtain ⟨-, answer, hreturns, hreached, -⟩ :=
      dominates_exact dominatorLibrary returnInLoopGraph (.ast "signal") (.ast "loop")
    rw [← hreached ⟨_, .inr rfl, hraise⟩, hreturns.unique (hpost (a := false) (by decide +kernel))]
    exact Bool.false_ne_true

end AtlasDb.Analysis
