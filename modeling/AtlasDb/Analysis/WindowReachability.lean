import AtlasDb.Analysis.Constraints
import AtlasDb.Core.Patterns
import AtlasDb.Analysis.DynamicValues
import AtlasDb.Analysis.Nullability

/-!
# Reachability from window functions

`analysis/window_reachability.py: WindowReachabilityAnalyzer.analyze`. `LAG` and `LEAD` over at most
one row give NULL, so a variable bound to one of them is NULL; a predicate that asks for it not to
be NULL is reported as a contradiction. What a predicate asks for is read off its atoms that stand
under an even number of negations.
-/

namespace AtlasDb.Analysis

open Core Parsing DynamicSql

inductive WindowModelStatus where
  | windowModelComplete
  | windowModelPartial
  | windowInputCardinalityUnknown
  | windowOverSingleRowPartition
  | windowOrderNondeterministic
deriving DecidableEq

structure WindowFunctionSummary where
  functionName : String
  modelStatus : WindowModelStatus
  evidenceRefs : List NodeRef

structure QuerySourceSummary where
  querySummaryId : String
  sourceNodeRef : NodeRef
  windowModels : List WindowFunctionSummary

structure PredicateGraph where
  predicateGraphId : String
  root : PredicateExpr
  sourceNodeRefs : List NodeRef

structure ConstraintAssessment where
  assessmentId : String
  predicateGraphRef : String
  status : ConstraintStatus
  reason : String
  evidenceRefs : List NodeRef
deriving DecidableEq

/-- The finding `UNREACHABLE_BRANCH` of a graph. -/
structure WindowFinding where
  predicateGraphRef : String
  message : String
  evidenceNodeRefs : List NodeRef
deriving DecidableEq

/-! ## Variables that are NULL -/

/-- The function has no other row to look at. -/
def isAlwaysNull (model : WindowFunctionSummary) : Bool :=
  (model.functionName = "LAG" || model.functionName = "LEAD") &&
    model.modelStatus = .windowOverSingleRowPartition

/-- `always_null.setdefault(symbol, set()).update(refs)` -/
def addNull (symbol : String) (refs : List NodeRef) (known : List (String × List NodeRef)) :
    List (String × List NodeRef) :=
  if symbol ∈ known.map Prod.fst then
    known.map fun entry => if entry.1 = symbol then (symbol, sortedSet (entry.2 ++ refs)) else entry
  else known ++ [(symbol, sortedSet refs)]

/-- `always_null`, with the evidence for each variable. -/
def alwaysNull (letters : Letters) (summaries : List QuerySourceSummary)
    (bindings : List QueryBindingFact) :
    List (String × List NodeRef) :=
  bindings.foldl (fun known binding =>
    match summaries.reverse.find? (·.querySummaryId = binding.querySummaryRef.getD "") with
    | none => known
    | some summary => (summary.windowModels.filter isAlwaysNull).foldl (fun known model =>
      addNull (String.ofList (letters.upper binding.targetSymbol.toList))
        (summary.sourceNodeRef :: model.evidenceRefs) known) known) []

/-! ## What a predicate asks for -/

mutual

/-- `positive_atoms`. -/
def positiveAtoms : PredicateExpr → Bool → List String
  | .not e, polarity => positiveAtoms e (!polarity)
  | .and es, polarity => positiveAtomsOf es polarity
  | .or es, polarity => positiveAtomsOf es polarity
  | .atomic text, polarity => if polarity && text ≠ "" then [text] else []
  | .unknown text, polarity => if polarity && text ≠ "" then [text] else []
  | .true, _ => []
  | .false, _ => []

def positiveAtomsOf : List PredicateExpr → Bool → List String
  | [], _ => []
  | e :: es, polarity => positiveAtoms e polarity ++ positiveAtomsOf es polarity

end

section Patterns

variable (letters : Letters)

/-- `\b` symbol `\s+IS\s+NOT\s+NULL\b` -/
def notNullTest (symbol : String) : Lib.Pattern Char :=
  Patterns.concat [letters.boundary, letters.word symbol, Patterns.spaces, letters.word "IS",
    Patterns.spaces, letters.word "NOT", Patterns.spaces, letters.word "NULL", letters.boundary]

/-- `re.search` -/
def asksNotNull (symbol text : String) : Bool := (notNullTest letters symbol).found none text.toList

/-- The variables that are NULL and asked not to be. -/
def contradictedSymbols (nulls : List String) (root : PredicateExpr) : List String :=
  sortedSet (nulls.filter fun symbol => (positiveAtoms root true).any (asksNotNull letters symbol))

/-! ## The analysis -/

def windowReason (symbols : List String) : String :=
  "Window-derived symbol(s) " ++ ", ".intercalate symbols ++
    " are always NULL because LAG/LEAD is evaluated over an input constrained to at most one row."

/-- The evidence of the graph and of the variables. -/
def windowEvidence (known : List (String × List NodeRef)) (graph : PredicateGraph)
    (symbols : List String) : List NodeRef :=
  sortedSet (graph.sourceNodeRefs ++ symbols.flatMap fun symbol => (known.lookup symbol).getD [])

/-- The finding for a graph, if there is a contradiction. -/
def windowFinding (known : List (String × List NodeRef)) (graph : PredicateGraph) :
    Option WindowFinding :=
  let symbols := contradictedSymbols letters (known.map Prod.fst) graph.root
  if symbols = [] then none
  else some ⟨graph.predicateGraphId, windowReason symbols, windowEvidence known graph symbols⟩

/-- The assessment once the graph's finding is known. -/
def contradictedBy (assessment : ConstraintAssessment) (finding : WindowFinding) :
    ConstraintAssessment :=
  { assessment with
    status := .obviousContradiction
    reason := finding.message
    evidenceRefs := finding.evidenceNodeRefs }

/-- `WindowReachabilityAnalyzer.analyze`: of two assessments of one graph the last counts, and of
two findings as well. -/
def analyzeWindows (summaries : List QuerySourceSummary) (bindings : List QueryBindingFact)
    (graphs : List PredicateGraph) (assessments : List ConstraintAssessment) :
    List ConstraintAssessment × List WindowFinding :=
  let findings := graphs.filterMap (windowFinding letters (alwaysNull letters summaries bindings))
  let current := fun assessment : ConstraintAssessment =>
    let last := (assessments.reverse.find?
      (·.predicateGraphRef = assessment.predicateGraphRef)).getD assessment
    match findings.reverse.find? (·.predicateGraphRef = last.predicateGraphRef) with
    | none => last
    | some finding => contradictedBy last finding
  ((assessments.map current).insertionSort fun a b => a.assessmentId.toList ≤ b.assessmentId.toList,
    findings)

end Patterns

end AtlasDb.Analysis
