import AtlasDb.Analysis.LoopExits
import AtlasDb.Analysis.Modalities
import AtlasDb.Lib.Reach
import Mathlib.Data.List.Sort

/-!
# Loop summaries

`analysis/loop_summaries.py: LoopSummaryAnalyzer`. A `LOOP` is reported as possibly not terminating
when there is no `LEAVE`, `RETURN`, `SIGNAL` or `RESIGNAL` anywhere in it. Whether the graph has a
way out of the loop is another question, and `terminationStatus_iff` says when the two have the same
answer.
-/

namespace AtlasDb.Analysis

open Core Lib Parsing

/-! ## Records -/

inductive LoopTerminationStatus where
  | terminationCandidate
  | possiblyNonTerminating
  | unknown
deriving DecidableEq

/-- `incomplete` is the `PARTIAL` of the source. -/
inductive LoopProofObligationStatus where
  | satisfied
  | incomplete
  | unsatisfied
  | notApplicable
deriving DecidableEq

structure LoopProofObligation where
  obligation : String
  status : LoopProofObligationStatus
  evidenceRefs : List NodeRef
deriving DecidableEq

structure LoopSummary extends LoopSummaryCandidate where
  loopKind : LoopKind
  label : Option String
  conditionText : Option String
  cursorFetchRefs : List NodeRef
  accumulatorAssignmentRefs : List NodeRef
  earlyExitRefs : List NodeRef
  iterateRefs : List NodeRef
  handlerBindingRefs : List (NodeRef × NodeRef)
  proofObligations : List LoopProofObligation
  terminationStatus : LoopTerminationStatus
  cardinalityStatus : String

/-! ## The analyzer -/

def isFetch (stmt : Statement) : Bool := stmt.kind = .fetchCursor

def isDml (stmt : Statement) : Bool := stmt.kind = .dml

/-- The statements `leaves` is made of. -/
def isEarlyExit (stmt : Statement) : Bool :=
  match stmt.kind with
  | .leave | .return | .signal | .resignal => true
  | _ => false

/-- `_is_accumulator`: the target stands in the assigned expression before an operator. -/
def isAccumulator (stmt : Statement) : Bool :=
  stmt.assignment.any fun binding =>
    (Regex.search (Regex.all [.boundary, Regex.literal binding.targetName.toList, .boundary,
      .star Regex.space, .char (· ∈ ['+', '-', '*', '/'])]) binding.expressionText.toList).isSome

/-- A word of the upper-cased text is the name. -/
def namesWord (text name : String) : Bool :=
  (Regex.search (Regex.all (.boundary :: (name.toList.map fun c => .char (· = c)) ++ [.boundary]))
    (Text.upper text.toList)).isSome

/-- `_cursor_declarations`: the declarations whose text names a cursor that is fetched from. -/
def cursorDeclarations (ast : ProcedureAst) (fetches : List Statement) : List NodeRef :=
  let names := fetches.filterMap fun stmt => stmt.fetch.map FetchBinding.cursorName
  ((statementsOf ast.body).filter fun s => s.2.kind = .declareCursor &&
    names.any (namesWord s.2.text)).map Prod.fst

/-- `_accumulator_initializations`: before the loop, the assignments to what it accumulates and the
declarations of it with a default. -/
def accumulatorInitializations (ast : ProcedureAst) (loop : NodeRef)
    (accumulators : List Statement) : List NodeRef :=
  let symbols := accumulators.filterMap fun stmt => stmt.assignment.map AssignmentBinding.targetName
  let before := (refsOf ast.body).takeWhile (· ≠ loop)
  ((statementsOf ast.body).filter fun s => s.1 ∈ before &&
    (s.2.assignment.any (fun binding => binding.targetName ∈ symbols) ||
      (s.2.kind = .declareVariable && symbols.any (namesWord s.2.text) &&
        Text.containsList " DEFAULT ".toList
          (' ' :: Text.upper s.2.text.toList ++ [' '])))).map Prod.fst

/-- `_termination_status`. -/
def terminationStatus (kind : LoopKind) (conditionText : Option String) (leaves : List NodeRef) :
    LoopTerminationStatus :=
  if leaves ≠ [] ∨ conditionText.any (· ≠ "") then .terminationCandidate
  else if kind = .loop then .possiblyNonTerminating
  else .unknown

namespace LoopSite

/-- The statements among the descendants of the loop that `accepts` takes, in the order of the
text. -/
def select (l : LoopSite) (accepts : Statement → Bool) : List (NodeRef × Statement) :=
  ((statementsOf l.body).filter fun s => accepts s.2).insertionSort fun a b =>
    a.2.startOffset ≤ b.2.startOffset

def selectRefs (l : LoopSite) (accepts : Statement → Bool) : List NodeRef :=
  (l.select accepts).map Prod.fst

/-- One turn of `LoopSummaryAnalyzer.analyze`. -/
def summary (ast : ProcedureAst) (l : LoopSite) : LoopSummary :=
  let fetches := l.selectRefs isFetch
  let leaves := l.selectRefs isEarlyExit
  let accumulators := l.selectRefs isAccumulator
  let dmlRefs := l.selectRefs isDml
  let bindings := ((handlerBindings ast).filter fun b => b.sourceRef ∈ refsOf l.body).map fun b =>
    (b.sourceRef, b.handler.id)
  let declarations := cursorDeclarations ast ((l.select isFetch).map Prod.snd)
  let initializations :=
    accumulatorInitializations ast l.id ((l.select isAccumulator).map Prod.snd)
  { loopRegionRef := l.id
    loopKind := l.region.loopKind
    label := l.region.label
    conditionText := l.region.conditionText
    cursorFetchRefs := fetches
    accumulatorAssignmentRefs := accumulators
    earlyExitRefs := leaves
    iterateRefs := l.selectRefs isIterate
    handlerBindingRefs := bindings
    proofObligations :=
      [⟨"CURSOR_POPULATION_IDENTIFIED",
          if fetches = [] ∨ declarations ≠ [] then .satisfied else .unsatisfied, declarations⟩,
       ⟨"FETCH_BINDING_IDENTIFIED", if fetches ≠ [] then .satisfied else .notApplicable, fetches⟩,
       ⟨"ACCUMULATOR_INITIALIZATION_IDENTIFIED",
          if accumulators = [] ∨ initializations ≠ [] then .satisfied else .incomplete,
          initializations⟩,
       ⟨"ACCUMULATOR_UPDATE_IDENTIFIED", if accumulators ≠ [] then .satisfied else .notApplicable,
          accumulators⟩,
       ⟨"EARLY_EXIT_RESOLVED", if leaves ≠ [] then .incomplete else .notApplicable, leaves⟩,
       ⟨"HANDLER_INTERFERENCE_RESOLVED", if bindings ≠ [] then .incomplete else .satisfied,
          bindings.map Prod.fst⟩,
       ⟨"SOURCE_MUTATION_RESOLVED",
          if dmlRefs ≠ [] ∧ fetches ≠ [] then .incomplete else .notApplicable, dmlRefs⟩,
       ⟨"NULL_SEMANTICS_RESOLVED", if accumulators ≠ [] then .incomplete else .notApplicable,
          accumulators⟩,
       ⟨"TERMINATION_RESOLVED",
          if leaves ≠ [] ∨ l.region.conditionText.any (· ≠ "") then .incomplete else .unsatisfied,
          l.id :: leaves⟩]
    terminationStatus := Analysis.terminationStatus l.region.loopKind l.region.conditionText leaves
    cardinalityStatus := if fetches ≠ [] then "DATA_DEPENDENT" else "UNKNOWN"
    analysisCompleteness := .incomplete }

end LoopSite

/-- `LoopSummaryAnalyzer.analyze`: one summary for each loop. -/
def analyzeLoops (ast : ProcedureAst) : List LoopSummary :=
  (loopSites ast.body []).map (LoopSite.summary ast)

/-! ## What is reported and what the graph has -/

section Exact

variable {ast : ProcedureAst} {l : LoopSite}

theorem selectRefs_eq_nil_iff {accepts : Statement → Bool} :
    l.selectRefs accepts = [] ↔ ∀ s ∈ statementsOf l.body, accepts s.2 = false := by
  rw [LoopSite.selectRefs, List.map_eq_nil_iff, LoopSite.select]
  constructor
  · intro hnil s hs
    by_contra haccepts
    have hmem : s ∈ (statementsOf l.body).filter fun s => accepts s.2 :=
      List.mem_filter.mpr ⟨hs, by simpa using haccepts⟩
    have hsorted := (List.perm_insertionSort (fun a b : NodeRef × Statement =>
      a.2.startOffset ≤ b.2.startOffset) _).mem_iff.mpr hmem
    rw [hnil] at hsorted
    cases hsorted
  · intro h
    have hnil : (statementsOf l.body).filter (fun s => accepts s.2) = [] :=
      List.filter_eq_nil_iff.mpr fun s hs => by simp [h s hs]
    rw [hnil]
    rfl

theorem reported_iff (hkind : l.region.loopKind = .loop)
    (hcondition : l.region.conditionText = none) :
    (l.summary ast).terminationStatus = .possiblyNonTerminating ↔
      ∀ s ∈ statementsOf l.body, isEarlyExit s.2 = false := by
  rw [← selectRefs_eq_nil_iff]
  show terminationStatus l.region.loopKind l.region.conditionText (l.selectRefs isEarlyExit) = _ ↔ _
  rw [hkind, hcondition]
  by_cases hleaves : l.selectRefs isEarlyExit = [] <;> simp [terminationStatus, hleaves]

/-- The graph has a path from the header to a node outside the loop. -/
def CanLeave (ast : ProcedureAst) (l : LoopSite) : Prop :=
  ∃ t, ¬ l.Inside t ∧ Relation.ReflTransGen (Edge ast) (.ast l.id) t

/-- The node of the loop is reached from the header within the loop. -/
def Live (ast : ProcedureAst) (l : LoopSite) (x : NodeRef) : Prop :=
  Relation.ReflTransGen (fun a b => Edge ast a b ∧ l.Inside b) (.ast l.id) (.ast x)

theorem id_inside : l.Inside (.ast l.id) := LoopSite.inside_ast.mpr List.mem_cons_self

theorem Live.mem_refs {x : NodeRef} (h : Live ast l x) : x ∈ l.refs := by
  rcases Relation.ReflTransGen.cases_tail h with heq | ⟨y, -, -, hinside⟩
  · cases heq
    exact List.mem_cons_self
  · exact LoopSite.inside_ast.mp hinside

theorem canLeave_iff (hl : l ∈ loopSites ast.body []) :
    CanLeave ast l ↔ ∃ x, Live ast l x ∧ (x ∈ l.exits ∨ HandledOutside ast l x) := by
  constructor
  · rintro ⟨t, ht, hpath⟩
    obtain ⟨x, y, hlive, hstep, hy⟩ := exists_step_out hpath id_inside ht
    have hx : l.Inside x := by
      rcases Relation.ReflTransGen.cases_tail hlive with rfl | ⟨_, -, -, hinside⟩
      · exact id_inside
      · exact hinside
    cases x with
    | ast x => exact ⟨x, hlive, (edge_out_iff hl (LoopSite.inside_ast.mp hx)).mp ⟨y, hstep, hy⟩⟩
    | handlerExit h => exact absurd hstep not_edge_handlerExit
    | entry => simp [LoopSite.Inside, CfgRef.owner] at hx
    | normalExit => exact absurd hx LoopSite.not_inside_normal
    | exceptionalExit => exact absurd hx LoopSite.not_inside_exceptional
  · rintro ⟨x, hlive, hout⟩
    obtain ⟨t, hstep, ht⟩ := (edge_out_iff hl hlive.mem_refs).mpr hout
    have hpath := Relation.ReflTransGen.mono (fun _ _ hstep => hstep.1) _ _ hlive
    exact ⟨t, ht, .tail hpath hstep⟩

/-- A loop with a `LEAVE`, `RETURN`, `SIGNAL` or `RESIGNAL` in it has a live way out, and a loop
without has no live `ITERATE` to a loop further out, no live statement with a handler outside, and
no live end of an `EXIT` or `UNDO` handler of its own. -/
structure ReportFits (ast : ProcedureAst) (l : LoopSite) : Prop where
  jumps : (∃ s ∈ statementsOf l.body, isEarlyExit s.2 = true) →
    ∃ x, Live ast l x ∧ (x ∈ l.exits ∨ HandledOutside ast l x)
  no_jumps : (∀ s ∈ statementsOf l.body, isEarlyExit s.2 = false) →
    ∀ x, Live ast l x → x ∉ l.exits ∧ ¬ HandledOutside ast l x

/-- `PossiblyNonTerminating` is reported of the loops the graph cannot leave exactly where the jumps
fit the ways out. -/
theorem terminationStatus_iff (hl : l ∈ loopSites ast.body []) (hkind : l.region.loopKind = .loop)
    (hcondition : l.region.conditionText = none) :
    ((l.summary ast).terminationStatus = .possiblyNonTerminating ↔ ¬ CanLeave ast l) ↔
      ReportFits ast l := by
  rw [reported_iff hkind hcondition, canLeave_iff hl]
  constructor
  · intro h
    constructor
    · rintro ⟨s, hs, hexit⟩
      by_contra hnone
      rw [h.mpr hnone s hs] at hexit
      cases hexit
    · intro hjumps x hx
      have hnone := h.mp hjumps
      exact ⟨fun hout => hnone ⟨x, hx, .inl hout⟩, fun hout => hnone ⟨x, hx, .inr hout⟩⟩
  · rintro ⟨hjumps, hno⟩
    constructor
    · rintro h ⟨x, hx, hout⟩
      exact hout.elim (hno h x hx).1 (hno h x hx).2
    · intro hnone s hs
      by_contra hexit
      exact hnone (hjumps ⟨s, hs, by simpa using hexit⟩)

end Exact

/-! ## A loop that only leaves its block -/

/-- A labelled block in a loop, and a `LEAVE` of the block. -/
def innerLeave : ProcedureAst where
  nodeId := "procedure"
  parameters := []
  commitOnReturn := none
  body :=
    [.loop "loop" { loopKind := .loop, label := some "MAIN" }
       [.compound "block" (some "INNER") "BEGIN"
          [.simple "leave" { kind := .leave, text := "LEAVE INNER" }]]]
  distinct := by decide

def innerLeaveSite : LoopSite :=
  ⟨"loop", { loopKind := .loop, label := some "MAIN" },
    [.compound "block" (some "INNER") "BEGIN"
       [.simple "leave" { kind := .leave, text := "LEAVE INNER" }]], [], []⟩

theorem innerLeaveSite_mem : innerLeaveSite ∈ loopSites innerLeave.body [] :=
  List.mem_singleton.mpr rfl

theorem innerLeave_exits : innerLeaveSite.exits = [] := by decide +kernel

theorem innerLeave_not_handled (x : NodeRef) : ¬ HandledOutside innerLeave innerLeaveSite x := by
  rintro ⟨s, h, ⟨hs, -, hbound⟩, -, -⟩
  obtain rfl := List.mem_singleton.mp hs
  cases hbound

theorem innerLeave_endless : ¬ CanLeave innerLeave innerLeaveSite := by
  rw [canLeave_iff innerLeaveSite_mem]
  rintro ⟨x, -, hexit | hhandled⟩
  · rw [innerLeave_exits] at hexit
    cases hexit
  · exact innerLeave_not_handled x hhandled

theorem innerLeave_unreported :
    (innerLeaveSite.summary innerLeave).terminationStatus ≠ .possiblyNonTerminating := by
  rw [Ne, reported_iff rfl rfl]
  intro h
  exact absurd (h _ (List.mem_singleton_self _)) (by decide)

/-- The report of this loop fits its ways out exactly if it is right, which it is not. -/
theorem terminationStatus_innerLeave :
    (((innerLeaveSite.summary innerLeave).terminationStatus = .possiblyNonTerminating ↔
      ¬ CanLeave innerLeave innerLeaveSite) ↔ ReportFits innerLeave innerLeaveSite) :=
  terminationStatus_iff innerLeaveSite_mem rfl rfl

/-- The `LEAVE` of the inner block is taken for a way out of the loop. -/
theorem endless_loop_unreported :
    ¬ ∀ (ast : ProcedureAst) (l : LoopSite), l ∈ loopSites ast.body [] → l.region.loopKind = .loop →
      l.region.conditionText = none →
      ((l.summary ast).terminationStatus = .possiblyNonTerminating ↔ ¬ CanLeave ast l) := by
  intro h
  exact innerLeave_unreported
    ((h innerLeave innerLeaveSite innerLeaveSite_mem rfl rfl).mpr innerLeave_endless)

end AtlasDb.Analysis
