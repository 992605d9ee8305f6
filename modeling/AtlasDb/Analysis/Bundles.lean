import AtlasDb.Analysis.Effects
import AtlasDb.Analysis.Transaction
import AtlasDb.Core.CanonicalJson
import AtlasDb.Lib.DominatorWalk

/-!
# Effect bundles

`analysis/bundles.py: BehaviorEffectBundleBuilder`. The effects of one control region form a bundle;
its primary effect is picked by kind and source position, and every other member is required when
its statement dominates or postdominates that of the primary.

The dictionaries of immediate dominators come from a library; `DominatorLibrary` says what it
returns.
-/

namespace AtlasDb.Analysis

open Core Lib Parsing

/-! ## Records -/

inductive EffectRelationship where
  | primary
  | requiredCoEffect
  | conditionalCoEffect
  | auditEffect
  | rolledBackEffect
deriving DecidableEq

/-- `controlling_region_ref`, by the parts of its text. -/
inductive ControlRegion where
  | effectRegion (node : NodeRef)
  | ifArm (region : NodeRef) (index : Nat) (kind : ArmKind)
  | handlerRegion (handler : NodeRef)
  | loopRegion (loop : NodeRef)
  | atomicRegion (compound : NodeRef)
deriving DecidableEq

structure BundleEffectMember where
  effectRef : EffectId
  relationship : EffectRelationship
deriving DecidableEq

inductive Atomicity where
  | atomicCompound
  | sameTransactionRegion
deriving DecidableEq

structure EffectOrderingEdge where
  beforeEffectRef : EffectId
  afterEffectRef : EffectId
  atomicity : Atomicity
deriving DecidableEq

inductive BehaviorActionScope where
  | procedureInvocation
  | cursorIteration
  | handlerActivation
deriving DecidableEq

/-- What `bundle_id` is the digest of. -/
structure BundleId where
  controllingRegionRef : ControlRegion
  transactionRegionRef : NodeRef
  primaryEffectRef : EffectId
  memberRefs : List EffectId
deriving DecidableEq

structure BehaviorEffectBundle where
  bundleId : BundleId
  primaryEffectRef : EffectId
  effectMembers : List BundleEffectMember
  transactionRegionRef : NodeRef
  controllingRegionRef : ControlRegion
  actionScope : BehaviorActionScope
  actionScopeRef : Option NodeRef
  orderingEdges : List EffectOrderingEdge
  bundleCompleteness : Completeness
  evidenceRefs : List NodeRef
deriving DecidableEq

/-! ## Regions -/

/-- `"BEGIN ATOMIC" in " ".join(node.text.upper().split())` -/
def isAtomic (text : String) : Bool :=
  Text.containsList "BEGIN ATOMIC".toList (Text.normalized text).toList

mutual

/-- `visit` of `_control_regions`, with the region inherited from outside. -/
def nodeRegions (inherited : Option ControlRegion) : Node → List (NodeRef × ControlRegion)
  | .simple id _ => [(id, inherited.getD (.effectRegion id))]
  | .compound id _ text body =>
    let own := if isAtomic text then some (.atomicRegion id) else inherited
    (id, own.getD (.effectRegion id)) :: seqRegions own body
  | .ifRegion id arms => (id, inherited.getD (.effectRegion id)) :: armRegions id 0 arms
  | .loop id _ body => (id, .loopRegion id) :: seqRegions (some (.loopRegion id)) body
  | .handler id _ body => (id, .handlerRegion id) :: seqRegions (some (.handlerRegion id)) body

def seqRegions (inherited : Option ControlRegion) : List Node → List (NodeRef × ControlRegion)
  | [] => []
  | n :: ns => nodeRegions inherited n ++ seqRegions inherited ns

def armRegions (id : NodeRef) (index : Nat) : List Arm → List (NodeRef × ControlRegion)
  | [] => []
  | .mk header body :: arms =>
    seqRegions (some (.ifArm id index header.armKind)) body ++ armRegions id (index + 1) arms

end

/-- `_control_regions`, with the default used where a node is not in the table. -/
def controlRegion (ast : ProcedureAst) (ref : NodeRef) : ControlRegion :=
  ((seqRegions none ast.body).lookup ref).getD (.effectRegion ref)

mutual

/-- The loops around each node, innermost first; a loop is around itself. -/
def nodeLoops (loops : List NodeRef) : Node → List (NodeRef × List NodeRef)
  | .simple id _ => [(id, loops)]
  | .compound id _ _ body => (id, loops) :: seqLoops loops body
  | .ifRegion id arms => (id, loops) :: armLoops loops arms
  | .loop id _ body => (id, id :: loops) :: seqLoops (id :: loops) body
  | .handler id _ body => (id, loops) :: seqLoops loops body

def seqLoops (loops : List NodeRef) : List Node → List (NodeRef × List NodeRef)
  | [] => []
  | n :: ns => nodeLoops loops n ++ seqLoops loops ns

def armLoops (loops : List NodeRef) : List Arm → List (NodeRef × List NodeRef)
  | [] => []
  | .mk _ body :: arms => seqLoops loops body ++ armLoops loops arms

end

/-- `_loop_ancestors` of a node. -/
def loopAncestors (ast : ProcedureAst) (ref : NodeRef) : List NodeRef :=
  ((seqLoops [] ast.body).lookup ref).getD []

/-- `_loop_scope_by_node`: the innermost loop. -/
def loopScope (ast : ProcedureAst) (ref : NodeRef) : Option NodeRef := (loopAncestors ast ref).head?

/-! ## Graphs -/

/-- `networkx.immediate_dominators`: a dictionary of the immediate dominators of the nodes that can
be reached from the start, which is mapped to itself or to `None`, or is left out. -/
structure DominatorLibrary where
  immediateDominators : {V : Type} → [DecidableEq V] → List (V × V) → V → V → Option (Option V)
  spec : ∀ {V : Type} [DecidableEq V] (edges : List (V × V)) (start : V),
    DominatorDict (EdgeIn edges) start (immediateDominators edges start)

/-- The dictionaries as computed from the definition of dominance. -/
def dominatorLibrary : DominatorLibrary where
  immediateDominators := immediateDominator
  spec := immediateDominator_spec

/-- The pairs of nodes with an edge. -/
def graphEdges (cfg : ControlFlowGraph) : List (CfgRef × CfgRef) :=
  cfg.edges.map fun e => (e.source, e.target)

/-- The reversed graph, with a sink before the two exits. -/
def postEdges (cfg : ControlFlowGraph) : List (Option CfgRef × Option CfgRef) :=
  (none, some .normalExit) :: (none, some .exceptionalExit) ::
    (graphEdges cfg).map fun e => (some e.2, some e.1)

section Required

variable (nx : DominatorLibrary) (cfg : ControlFlowGraph)

/-- `dominators` of `_graphs`. -/
def dominators : CfgRef → Option (Option CfgRef) := nx.immediateDominators (graphEdges cfg) .entry

/-- `postdominators` of `_graphs`; the sink is `none`. -/
def postdominators : Option CfgRef → Option (Option (Option CfgRef)) :=
  nx.immediateDominators (postEdges cfg) none

/-- `_dominates` with the dictionary of dominators. -/
def dominatesRef (candidate target : NodeRef) : Bool :=
  dominatesAnswer (graphEdges cfg) (dominators nx cfg) (.ast candidate) (.ast target)

/-- `_dominates` with the dictionary of postdominators. -/
def postdominatesRef (candidate target : NodeRef) : Bool :=
  dominatesAnswer (postEdges cfg) (postdominators nx cfg) (some (.ast candidate))
    (some (.ast target))

/-- `_is_required`. -/
def isRequired (primary other : NodeRef) : Bool :=
  (.ast primary ∈ cfg.nodes) && (.ast other ∈ cfg.nodes) &&
    (dominatesRef nx cfg other primary || postdominatesRef nx cfg other primary)

end Required

/-! ## Members -/

/-- The effects a bundle may have as members. -/
def EffectCandidate.isAdmitted (e : EffectCandidate) : Bool :=
  !(e.effectKind = .outParameterAssignment &&
    (e.observability = .intermediateEffect || e.observability = .overwrittenOutputAssignment))

/-- `_source_offset`. -/
def sourceOffset (ast : ProcedureAst) (ref : NodeRef) : Nat :=
  (((statementsOf ast.body).lookup ref).map Statement.startOffset).getD 0

/-- The text of `effect_id`. -/
def EffectId.text (e : EffectId) : List Char :=
  let payload := "|".intercalate
    [e.kind.value, e.nodeRef, e.target.getD "", e.valueExpression.getD "", e.observability.value]
  "effect-".toList ++ (Sha256.hexdigest (utf8 payload.toList)).take 20

def effectPriority : EffectKind → Nat
  | .resignal | .signal => 0
  | .outParameterAssignment => 1
  | .dml | .sequenceValueAcquisition | .resultSetReturn | .stateAssignment => 2
  | .call | .dynamicSql => 3
  | .commit | .rollback => 4

/-- The order of `_primary_key`. -/
def primaryBefore (ast : ProcedureAst) (a b : EffectCandidate) : Bool :=
  let priority := fun (e : EffectCandidate) => effectPriority e.effectKind
  let offset := fun (e : EffectCandidate) => sourceOffset ast e.sourceNodeRef
  if priority a ≠ priority b then priority a < priority b
  else if offset a ≠ offset b then offset a < offset b
  else a.effectId.text < b.effectId.text

/-- `min(members, key=_primary_key)`: the first of the least members. -/
def primaryOf (ast : ProcedureAst) (first : EffectCandidate) (rest : List EffectCandidate) :
    EffectCandidate :=
  rest.foldl (fun best e => if primaryBefore ast e best then e else best) first

/-- `sorted(members, key=_source_offset)`. -/
def sortedByOffset (ast : ProcedureAst) (members : List EffectCandidate) : List EffectCandidate :=
  members.insertionSort fun a b =>
    sourceOffset ast a.sourceNodeRef ≤ sourceOffset ast b.sourceNodeRef

/-- The name says that it holds an outcome. -/
def namesOutcome (target : String) : Bool :=
  ["DECISION", "STATUS", "RESULT"].any fun token =>
    Text.containsList token.toList (Text.upper target.toList)

def EffectCandidate.upperTarget (e : EffectCandidate) : String :=
  Text.upperString (e.target.getD "")

def EffectCandidate.isOut (e : EffectCandidate) : Bool := e.effectKind = .outParameterAssignment

instance lawfulBEqOptionString : LawfulBEq (Option String) := inferInstance

/-- `_required_procedure_out_effects`: outputs with one reaching definition before the primary. -/
def requiredProcedureOutEffects (ast : ProcedureAst) (solution : SolverState)
    (primary : EffectCandidate) (baseMembers admitted : List EffectCandidate) :
    List EffectCandidate :=
  let inArm := match controlRegion ast primary.sourceNodeRef with
    | .ifArm _ _ _ => true
    | _ => false
  if !inArm || !(primary.isOut && namesOutcome (primary.target.getD "")) then []
  else
    let outs := admitted.filter EffectCandidate.isOut
    let memberTargets := (baseMembers.filter EffectCandidate.isOut).map EffectCandidate.target
    let targets :=
      ((outs.filter fun e => e.target.getD "" ≠ "").map EffectCandidate.upperTarget).dedup
    let sorted := targets.insertionSort fun a b => a.toList ≤ b.toList
    sorted.filterMap fun target =>
      if some target ∈ memberTargets then none
      else
        match definitionsAtCfg solution (.ast primary.sourceNodeRef) target with
        | [ref] =>
          (outs.reverse.find? fun e => e.upperTarget = target && e.sourceNodeRef = ref).filter
            fun e => e.effectId ∉ baseMembers.map EffectCandidate.effectId &&
              e.observability = .escapingEffect
        | _ => none

/-- The relationship of a member to the primary effect. -/
def relationshipOf (nx : DominatorLibrary) (cfg : ControlFlowGraph) (primary e : EffectCandidate) :
    EffectRelationship :=
  if e.effectId = primary.effectId then .primary
  else if e.observability = .rolledBackEffect then .rolledBackEffect
  else if e.effectKind = .dml ∧
    (e.target.any fun t => Text.containsList "AUDIT".toList t.toList) then
    .auditEffect
  else if isRequired nx cfg primary.sourceNodeRef e.sourceNodeRef then .requiredCoEffect
  else .conditionalCoEffect

/-! ## Ordering, scope and completeness -/

/-- `nx.has_path`. -/
def hasPath (cfg : ControlFlowGraph) (a b : NodeRef) : Bool :=
  .ast b ∈ reachedBefore (graphEdges cfg) (fun _ => false) (.ast a)

def orderingEdge (ast : ProcedureAst) (cfg : ControlFlowGraph) (left right : EffectCandidate) :
    Option EffectOrderingEdge :=
  let region := fun (e : EffectCandidate) => controlRegion ast e.sourceNodeRef
  let sameAtomic : Bool := match region left with
    | .atomicRegion _ => region left = region right
    | _ => false
  if !(.ast left.sourceNodeRef ∈ cfg.nodes) || !(.ast right.sourceNodeRef ∈ cfg.nodes) then none
  else if sameAtomic then some ⟨left.effectId, right.effectId, .atomicCompound⟩
  else if hasPath cfg left.sourceNodeRef right.sourceNodeRef &&
      !hasPath cfg right.sourceNodeRef left.sourceNodeRef then
    some ⟨left.effectId, right.effectId, .sameTransactionRegion⟩
  else none

/-- `_ordering_edges`. -/
def orderingEdges (ast : ProcedureAst) (cfg : ControlFlowGraph) :
    List EffectCandidate → List EffectOrderingEdge
  | [] => []
  | left :: members =>
    members.filterMap (orderingEdge ast cfg left) ++ orderingEdges ast cfg members

/-- The loop an iteration of which the bundle describes: the least of the members' loops. -/
def loopRefOf (ast : ProcedureAst) (members : List EffectCandidate) : Option NodeRef :=
  ((members.filterMap fun e => loopScope ast e.sourceNodeRef).insertionSort
    fun a b => a.toList ≤ b.toList).head?

def actionScopeOf (ast : ProcedureAst) (controlling : ControlRegion)
    (members : List EffectCandidate) : BehaviorActionScope × Option NodeRef :=
  match loopRefOf ast members, controlling with
  | some loop, _ => (.cursorIteration, some loop)
  | none, .handlerRegion handler => (.handlerActivation, some handler)
  | none, _ => (.procedureInvocation, none)

/-- A member whose effect or survival is not known. -/
def isOpen (analyses : List EffectTransactionAnalysis) (e : EffectCandidate) : Bool :=
  e.effectKind = .call ||
  ((e.effectKind = .dynamicSql || e.effectKind = .sequenceValueAcquisition) &&
    e.observability = .unresolvedEffectBoundary) ||
  ((analyses.find? fun a => some a.analysisId = e.transactionAnalysisRef).any fun a =>
    a.classification ≠ .mustCommit && a.classification ≠ .mustRollback &&
      a.classification ≠ .callerContractCommit)

/-! ## Bundles -/

section Build

variable (nx : DominatorLibrary) (ast : ProcedureAst) (cfg : ControlFlowGraph)
  (regionRef : NodeRef) (analyses : List EffectTransactionAnalysis)

/-- The bundle of a region whose admitted effects, in source order, are `first :: rest`. -/
def bundleOf (solution : SolverState) (admitted : List EffectCandidate)
    (controlling : ControlRegion)
    (first : EffectCandidate) (rest : List EffectCandidate) : BehaviorEffectBundle :=
  let primary := primaryOf ast first rest
  let inherited := requiredProcedureOutEffects ast solution primary (first :: rest) admitted
  let ordered := sortedByOffset ast (first :: rest ++ inherited)
  let refs := ordered.map EffectCandidate.effectId
  let scope := actionScopeOf ast controlling ordered
  { bundleId := ⟨controlling, regionRef, primary.effectId, refs⟩
    primaryEffectRef := primary.effectId
    effectMembers := ordered.map fun e => ⟨e.effectId, relationshipOf nx cfg primary e⟩
    transactionRegionRef := regionRef
    controllingRegionRef := controlling
    actionScope := scope.1
    actionScopeRef := scope.2
    orderingEdges := orderingEdges ast cfg ordered
    bundleCompleteness := if ordered.any (isOpen analyses) then .incomplete else .complete
    evidenceRefs := ordered.map EffectCandidate.sourceNodeRef }

/-- `BehaviorEffectBundleBuilder.build`. -/
def buildBundles (effects : List EffectCandidate) : List BehaviorEffectBundle :=
  let admitted := effects.filter EffectCandidate.isAdmitted
  let region := fun (e : EffectCandidate) => controlRegion ast e.sourceNodeRef
  (admitted.map region).dedup.filterMap fun controlling =>
    match sortedByOffset ast (admitted.filter fun e => region e = controlling) with
    | [] => none
    | first :: rest =>
      some (bundleOf nx ast cfg regionRef analyses (solve ast cfg) admitted controlling first rest)

end Build

end AtlasDb.Analysis
