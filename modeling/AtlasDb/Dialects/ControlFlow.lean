import AtlasDb.Dialects.Regions
import AtlasDb.Lib.Reach
import Mathlib.Data.List.MinMax

/-!
# Refining the control flow

`atlas/dialects/control_flow.py: refine_control_flow`. The passes read the nodes only and put edges
in through `add_edge`, so each pass is the list of the edges it asks for, in its order. References,
texts and labels are lists of characters; a dictionary over node ids finds the last node with the
id.
-/

namespace AtlasDb.Dialects

open Core Lib

/-! ## Nodes and edges -/

/-- `EffectModality` -/
inductive EffectModality where
  | must
  | may
  | conditional
  | unknown
deriving DecidableEq

/-- The offsets of a `SourceSpan`. -/
structure SourceSpan where
  startOffset : Nat
  endOffset : Nat
deriving DecidableEq

/-- What the classifier puts in the attributes of a node. -/
inductive AttributeValue where
  | none
  | flag (value : Bool)
  | text (value : List Char)
deriving DecidableEq

/-- `str(value)` -/
def AttributeValue.str : AttributeValue → List Char
  | .none => "None".toList
  | .flag true => "True".toList
  | .flag false => "False".toList
  | .text value => value

/-- `if value` -/
def AttributeValue.truthy : AttributeValue → Bool
  | .none => false
  | .flag value => value
  | .text value => value ≠ []

/-- `SemanticNode` -/
structure SemanticNode where
  nodeId : List Char
  kind : SemanticNodeKind
  text : List Char
  sourceSpan : SourceSpan
  parentRef : Option (List Char) := none
  conditionText : Option (List Char) := none
  targetName : Option (List Char) := none
  variableReads : List (List Char) := []
  variableWrites : List (List Char) := []
  callTarget : Option (List Char) := none
  errorCode : Option (List Char) := none
  modality : EffectModality := .must
  attributes : List (String × AttributeValue) := []
deriving DecidableEq

/-- `SemanticEdge` -/
structure SemanticEdge where
  edgeId : List Char
  sourceRef : List Char
  targetRef : List Char
  kind : EdgeKind
  conditionText : Option (List Char) := none
deriving DecidableEq

/-- The parts of an edge that tell it from others. -/
structure EdgeKey where
  sourceRef : List Char
  targetRef : List Char
  kind : EdgeKind
  conditionText : Option (List Char) := none
deriving DecidableEq

def SemanticEdge.key (edge : SemanticEdge) : EdgeKey :=
  ⟨edge.sourceRef, edge.targetRef, edge.kind, edge.conditionText⟩

/-- `SemanticFinding` -/
structure SemanticFinding where
  code : String
  severity : String
  sourceSpan : Option SourceSpan
  consequence : String
deriving DecidableEq

/-- `node.text.strip().upper()` -/
def SemanticNode.upper (node : SemanticNode) : List Char := Text.upper (Text.strip node.text)

/-- `str(node.attributes.get("branch_kind", ""))` -/
def SemanticNode.branchKind (node : SemanticNode) : List Char :=
  (node.attributes.lookup "branch_kind").elim [] AttributeValue.str

/-- The attribute, if it is a text. -/
def SemanticNode.textAttribute (node : SemanticNode) (name : String) : Option (List Char) :=
  match node.attributes.lookup name with
  | some (.text value) => some value
  | _ => none

/-- The label a GOTO names, as its text. -/
def SemanticNode.gotoLabel (node : SemanticNode) : Option (List Char) :=
  ((node.attributes.lookup "label_name").filter AttributeValue.truthy).map AttributeValue.str

/-- `if value` for a text that may be missing. -/
def given (value : Option (List Char)) : Option (List Char) := value.filter (· ≠ [])

/-- `_TERMINAL_KINDS` -/
def terminalKinds : List SemanticNodeKind := [.return_, .errorRaise, .goto]

/-- `_POTENTIALLY_FAILING` -/
def potentiallyFailing : List SemanticNodeKind :=
  [.query, .selectInto, .resultSet, .insert, .update, .delete, .merge, .upsert, .call, .dynamicSql,
    .cursorOpen, .cursorFetch, .cursorClose, .errorRaise, .ddl, .truncate, .lock, .bulkOperation]

section Passes

variable (nodes : List SemanticNode) (exitId : List Char)

/-! ## Where the nodes are -/

/-- `by_id.get(ref)` -/
def byId (ref : List Char) : Option SemanticNode :=
  nodes.reverse.find? fun node => node.nodeId = ref

/-- `position[ref]`, for a reference that is there. -/
def position (ref : List Char) : Nat :=
  nodes.length - 1 - nodes.reverse.findIdx fun node => node.nodeId = ref

/-- The nodes behind the one with this reference. -/
def following (ref : List Char) : List SemanticNode := nodes.drop (position nodes ref + 1)

/-- `first_after` -/
def firstAfter (index : Nat) : List Char := nodes[index + 1]?.elim exitId SemanticNode.nodeId

/-- `parent.parent_ref if parent else None`, if it is not empty. -/
def parentOf (ref : List Char) : Option (List Char) :=
  (byId nodes ref).bind fun parent => given parent.parentRef

/-- `ancestors` -/
def ancestors (node : SemanticNode) : List (List Char) :=
  trail (parentOf nodes) (nodes.length + 1) (given node.parentRef) []

/-- `ancestry.get(ref, ())` -/
def ancestry (ref : List Char) : List (List Char) := (byId nodes ref).elim [] (ancestors nodes)

/-- `is_descendant` -/
def isDescendant (ref ancestor : List Char) : Bool := ancestor ∈ ancestry nodes ref

/-! ## Input edges -/

/-- What the loop over the input edges leaves in `control_edges`. -/
def keepsEdge (edge : SemanticEdge) : Bool :=
  match byId nodes edge.sourceRef with
  | none => false
  | some source =>
    if source.kind ∈ terminalKinds then false
    else if source.kind = .loopControl then false
    else
      match byId nodes edge.targetRef with
      | none => true
      | some target =>
        !(target.kind = .errorHandler && edge.kind = .next &&
          startsWithAny ["BEGIN CATCH", "EXCEPTION", "WHEN "] target.upper)

/-- `add_edge` -/
def addEdge (edges : List SemanticEdge) (key : EdgeKey) : List SemanticEdge :=
  if key.sourceRef = key.targetRef ∧ key.kind ≠ .loopBack then edges
  else if edges.any fun edge => edge.key = key then edges
  else edges ++ [⟨"pending".toList, key.sourceRef, key.targetRef, key.kind, key.conditionText⟩]

/-! ## Labels and loops -/

/-- `labels.get(name)` -/
def labelRef (name : List Char) : Option (List Char) :=
  (nodes.reverse.find? fun node =>
    node.kind = .label && (node.textAttribute "label_name").map Text.upper = some name).map
      SemanticNode.nodeId

/-- `enclosing_loop` -/
def enclosingLoop (node : SemanticNode) : Option SemanticNode :=
  (ancestry nodes node.nodeId).findSome? fun ref =>
    (byId nodes ref).filter fun candidate => candidate.kind = .loop

/-- `loop_end` -/
def loopEnd (loop : SemanticNode) : Option SemanticNode :=
  (following nodes loop.nodeId).find? fun candidate =>
    candidate.kind = .block && startsWith "END" candidate.upper &&
      (candidate.parentRef = some loop.nodeId || isDescendant nodes candidate.nodeId loop.nodeId) &&
      (startsWithAny ["END LOOP", "END WHILE", "END REPEAT"] candidate.upper ||
        (following nodes candidate.nodeId).head?.all fun next =>
          !isDescendant nodes next.nodeId loop.nodeId)

/-- Where control goes when the loop is left. -/
def loopExit (loop : SemanticNode) : List Char :=
  match loopEnd nodes loop with
  | some stop => firstAfter nodes exitId (position nodes stop.nodeId)
  | none => exitId

/-! ## Handlers -/

def handlers : List SemanticNode := nodes.filter fun node => node.kind = .errorHandler

/-- `handler_scope` -/
def handlerScope (handler : SemanticNode) : Option (List Char) :=
  ((ancestry nodes handler.nodeId).find? fun ref =>
    (byId nodes ref).any fun candidate =>
      candidate.kind = .block && startsWith "BEGIN" candidate.upper).or handler.parentRef

def isNameStart (c : Char) : Bool := c.isUpper || c = '_' || c = '$' || c = '#'

def isNameChar (c : Char) : Bool := isNameStart c || c.isDigit

/-- `^RAISE\s+([A-Z_$#][A-Z0-9_$#]*)\s*;?$` on a stripped text. -/
def namedRaise (upper : List Char) : Option (List Char) :=
  if startsWith "RAISE" upper then
    let operand := (upper.drop 5).dropWhile Text.isSpace
    let name := operand.takeWhile isNameChar
    let rest := (operand.dropWhile isNameChar).dropWhile Text.isSpace
    if operand.length < (upper.drop 5).length ∧ name.head?.any isNameStart ∧
      (rest = [] ∨ rest = [';']) then
      some name
    else none
  else none

/-- `exception_keys` -/
def exceptionKeys (node : SemanticNode) : List (List Char) :=
  (given node.errorCode).toList.map Text.upper ++ (namedRaise node.upper).toList ++
    (if node.kind = .selectInto then
      ["NO_DATA_FOUND".toList, "NOT FOUND".toList] ++
        if Text.containsList "STRICT".toList node.upper ||
        Text.containsList "SELECT".toList node.upper then
          ["TOO_MANY_ROWS".toList]
        else []
    else []) ++
    if node.kind = .cursorFetch then ["NO_DATA_FOUND".toList, "NOT FOUND".toList] else []

/-- The specificity of a handler for the node, if it is a candidate. -/
def specificity (conservative : Bool) (node handler : SemanticNode) : Option Nat :=
  let upper := handler.upper
  let condition := Text.upper ((given handler.conditionText).getD upper)
  let mentions (marker : String) : Bool := Text.containsList marker.toList upper
  if (exceptionKeys node).any fun key => Text.containsList key condition then some 6
  else if mentions "NOT FOUND" || mentions "NO_DATA_FOUND" then
    if node.kind ∈ [.cursorFetch, .selectInto, .query] then some 5 else none
  else if mentions "SQLEXCEPTION" || mentions "OTHERS" || mentions "BEGIN CATCH" then some 2
  else if upper = "EXCEPTION".toList ∨ startsWith "EXCEPTION " upper then none
  else if startsWith "WHEN " upper then if conservative then some 3 else none
  else some 1

/-- An element of `candidates`. -/
structure HandlerCandidate where
  depth : Nat
  specificity : Nat
  handler : SemanticNode

/-- A turn of the loop of `handler_candidates`. -/
def handlerCandidate (conservative : Bool) (node handler : SemanticNode) :
    Option HandlerCandidate :=
  match handlerScope nodes handler with
  | none => none
  | some scope =>
    let above := ancestry nodes node.nodeId
    if some scope ≠ node.parentRef ∧ scope ∉ above then none
    else if handler.nodeId ∈ above ∨ node.nodeId = handler.nodeId then none
    else (specificity conservative node handler).map fun specificity =>
      ⟨(ancestry nodes handler.nodeId).length, specificity, handler⟩

/-- `handler_candidates` -/
def handlerCandidates (conservative : Bool) (node : SemanticNode) : List HandlerCandidate :=
  if (ancestry nodes node.nodeId).any fun ref =>
      (byId nodes ref).any fun ancestor => ancestor.kind = .errorHandler then []
  else
    let candidates := (handlers nodes).filterMap (handlerCandidate nodes conservative node)
    let nearestDepth := (candidates.map HandlerCandidate.depth).foldr max 0
    candidates.filter fun candidate => candidate.depth = nearestDepth

/-- `applicable_handler`: the first of the most specific ones. -/
def applicableHandler (node : SemanticNode) : Option SemanticNode :=
  ((handlerCandidates nodes false node).argmax HandlerCandidate.specificity).map
    HandlerCandidate.handler

/-! ## The passes -/

/-- Handler bodies are entered on exceptional paths; normal control goes past them. -/
def handlerEdge (handler : SemanticNode) : Option EdgeKey :=
  let isBlock (start : String) (candidate : SemanticNode) : Bool :=
    candidate.kind = .block && startsWith start candidate.upper
  let behind := following nodes handler.nodeId
  if startsWith "DECLARE " handler.upper then do
    let first ← behind.head?.filter fun first =>
      isBlock "BEGIN" first && first.parentRef = some handler.nodeId
    let stop ← (behind.drop 1).find? fun candidate =>
      isBlock "END" candidate &&
        (candidate.parentRef = some first.nodeId ||
          isDescendant nodes candidate.nodeId first.nodeId)
    pure ⟨handler.nodeId, firstAfter nodes exitId (position nodes stop.nodeId), .next,
      some "HANDLER_DECLARATION".toList⟩
  else if startsWith "BEGIN TRY" handler.upper then do
    let endTry ← behind.find? (isBlock "END TRY")
    let beginCatch ← behind.find? fun candidate =>
      candidate.kind = .errorHandler && startsWith "BEGIN CATCH" candidate.upper
    let endCatch ← (following nodes beginCatch.nodeId).find? (isBlock "END CATCH")
    pure ⟨endTry.nodeId, firstAfter nodes exitId (position nodes endCatch.nodeId), .next,
      some "TRY_SUCCESS".toList⟩
  else if startsWith "EXCEPTION" handler.upper then do
    let previous ← (nodes.take (position nodes handler.nodeId)).getLast?
    let stop ← behind.find? fun candidate =>
      isBlock "END" candidate &&
        handler.parentRef ∈ candidate.parentRef :: (ancestry nodes candidate.nodeId).map some
    if previous.kind ∈ terminalKinds then none
    else pure ⟨previous.nodeId, stop.nodeId, .next, some "NO_EXCEPTION".toList⟩
  else none

/-- `control_kind` as the transfers read it. -/
def controlKind (node : SemanticNode) : List Char :=
  let control := (node.attributes.lookup "control_kind").elim [] AttributeValue.str
  ((Text.upper control).reverse.dropWhile (· = ';')).reverse

/-- The transfer of a GOTO to its label. -/
def gotoTransfer (node : SemanticNode) : Option EdgeKey := do
  let label ← node.gotoLabel
  let target ← given (labelRef nodes (Text.upper label))
  pure ⟨node.nodeId, target, .branch, some ("GOTO ".toList ++ label)⟩

/-- The transfer of a loop control to a labelled region. -/
def labelledTransfer (node : SemanticNode) : Option EdgeKey := do
  let targetLabel ← given (node.textAttribute "target_label")
  let ref ← given (labelRef nodes (Text.upper targetLabel))
  let control := controlKind node
  let labelledLoop := if control = "ITERATE".toList then
      (following nodes ref).find? fun candidate =>
        candidate.kind = .loop &&
          (candidate.parentRef = some ref || isDescendant nodes candidate.nodeId ref)
    else none
  match labelledLoop with
  | some loop => pure ⟨node.nodeId, loop.nodeId, .loopBack, some ("ITERATE ".toList ++ targetLabel)⟩
  | none =>
    let endLabel ← (following nodes ref).find? fun candidate =>
      candidate.kind = .block &&
        ("END ".toList ++ Text.upper targetLabel).isPrefixOf
          (candidate.upper.reverse.dropWhile fun c => c = ';' || c = '$').reverse
    pure ⟨node.nodeId, firstAfter nodes exitId (position nodes endLabel.nodeId), .branch,
      some (control ++ ' ' :: targetLabel)⟩

/-- The transfer of a loop control to the loop it stands in. -/
def enclosingTransfer (node : SemanticNode) : Option EdgeKey := do
  let loop ← enclosingLoop nodes node
  let control := controlKind node
  if control ∈ ["CONTINUE".toList, "ITERATE".toList] then
    pure ⟨node.nodeId, loop.nodeId, .loopBack, some control⟩
  else
    pure ⟨node.nodeId, loopExit nodes exitId loop, .branch,
      some ((given (some control)).getD "LOOP_EXIT".toList)⟩

/-- The edge of a statement that transfers control, or else what is found about it. -/
def transfer (node : SemanticNode) : Option (Except SemanticFinding EdgeKey) :=
  match node.kind with
  | .return_ => some (.ok ⟨node.nodeId, exitId, .branch, some "RETURN".toList⟩)
  | .errorRaise =>
    some
      (.ok ⟨node.nodeId, (applicableHandler nodes node).elim exitId SemanticNode.nodeId, .exception,
      some ((given node.errorCode).getD "RAISE".toList)⟩)
  | .goto =>
    match gotoTransfer nodes node with
    | some key => some (.ok key)
    | none => some (.error ⟨"UNRESOLVED_GOTO_LABEL", "ERROR", some node.sourceSpan,
        "Control-flow completeness is partial."⟩)
  | .loopControl =>
    match (labelledTransfer nodes exitId node).or (enclosingTransfer nodes exitId node) with
    | some key => some (.ok key)
    | none => some (.error ⟨"LOOP_CONTROL_TARGET_UNRESOLVED", "ERROR", some node.sourceSpan,
        "The transfer target is unresolved."⟩)
  | _ => none

/-- Loop false exits. -/
def loopFalseExit (loop : SemanticNode) : Option EdgeKey :=
  if loop.kind = .loop then
    some ⟨loop.nodeId, loopExit nodes exitId loop, .false_,
      some ((given loop.conditionText).getD "LOOP_EXIT".toList)⟩
  else none

/-- The branch kinds of the arms of a decision. -/
def armKinds : List (List Char) := ["ELSE".toList, "ELSIF".toList, "ELSEIF".toList, "WHEN".toList]

/-- `source_nodes[start:stop]` -/
def slice (start stop : Nat) : List SemanticNode := (nodes.take stop).drop start

/-- The join of a branch that goes up to the position `stop`. -/
def joinEdge (joinTarget : List Char) (branch : SemanticNode) (stop : Nat) : Option EdgeKey :=
  let body := (slice nodes (position nodes branch.nodeId + 1) stop).filter fun node =>
    isDescendant nodes node.nodeId branch.nodeId && node.kind ≠ .block
  match body.getLast? with
  | some last =>
    if last.kind ∈ terminalKinds ∨ last.kind = .loopControl then none
    else some ⟨last.nodeId, joinTarget, .branch, some "JOIN".toList⟩
  | none => none

/-- IF/CASE branch joins: the edges for one decision. -/
def decisionEdges (root : SemanticNode) : List EdgeKey :=
  let subtree := (following nodes root.nodeId).filter fun node =>
    isDescendant nodes node.nodeId root.nodeId
  if root.kind ≠ .condition ∧ root.kind ≠ .case_ then []
  else if root.kind = .condition ∧ root.branchKind ∈ armKinds then []
  else if subtree = [] then []
  else
    let lastSubtreeIndex := (subtree.map fun node => position nodes node.nodeId).foldr max 0
    let joinTarget := firstAfter nodes exitId lastSubtreeIndex
    let start := position nodes root.nodeId
    let branches := root :: (slice nodes (start + 1) (lastSubtreeIndex + 1)).filter fun node =>
      node.kind = .condition && node.parentRef = some root.nodeId && node.branchKind ∈ armKinds
    let stops := (branches.drop 1).map (fun branch => position nodes branch.nodeId) ++
      [lastSubtreeIndex + 1]
    let hasElse := branches.any fun branch => branch.branchKind = "ELSE".toList
    ((branches.zip stops).filterMap fun branch => joinEdge nodes joinTarget branch.1 branch.2) ++
      (if root.kind = .condition ∧ hasElse = false then
        [⟨root.nodeId, joinTarget, .false_, root.conditionText⟩]
      else []) ++
      if root.kind = .case_
        then [⟨root.nodeId, joinTarget, .branch, some "NO_MATCH".toList⟩] else []

/-- Exception causality from statements in the declaring scope to the nearest handler. -/
def exceptionEdges (node : SemanticNode) : List EdgeKey :=
  if node.kind ∉ potentiallyFailing ∨ node.kind ∈ [.errorHandler, .errorRaise] then []
  else (handlerCandidates nodes true node).map fun candidate =>
    ⟨node.nodeId, candidate.handler.nodeId, .exception,
      some ((given candidate.handler.conditionText).getD (Text.strip candidate.handler.text))⟩

/-! ## Call targets -/

/-- `{n:04d}` -/
def fourDigits (n : Nat) : List Char :=
  let digits := Nat.toDigits 10 n
  List.replicate (4 - digits.length) '0' ++ digits

/-- The target of a call. -/
def calledRoutine (node : SemanticNode) : Option (List Char) :=
  if node.kind = .call then given node.callTarget else none

/-- A target not met before becomes a node. -/
def registerTarget (targets : List SemanticNode) (node : SemanticNode) : List SemanticNode :=
  match calledRoutine node with
  | none => targets
  | some target =>
    if targets.any fun t => t.targetName = some target then targets
    else targets ++
      [{ nodeId := "call-target-".toList ++ fourDigits (targets.length + 1)
         kind := .callTarget
         text := "EXTERNAL ROUTINE ".toList ++ target
         sourceSpan := node.sourceSpan
         targetName := some target
         modality := .may
         attributes := [("external", .flag true)] }]

def callTargets : List SemanticNode := nodes.foldl registerTarget []

/-- The edge of a call to its target, which keeps the id it was given. -/
def callEdge (node : SemanticNode) : Option EdgeKey := do
  let target ← calledRoutine node
  let targetNode ← (callTargets nodes).find? fun t => t.targetName = some target
  pure ⟨node.nodeId, targetNode.nodeId, .calls, some target⟩

/-! ## Last writers -/

/-- `last_writer`, the newest entry first. -/
abbrev LastWriters : Type := List (List Char × List Char)

/-- `last_writer.get(variable)` -/
def lastWriter (writers : LastWriters) (variable_ : List Char) : Option (List Char) :=
  (writers.find? fun entry => entry.1 = variable_).map Prod.snd

/-- The edge for a variable the node reads. -/
def dependencyEdge (writers : LastWriters) (node : SemanticNode) (variable_ : List Char) :
    Option EdgeKey := do
  let writer ← given (lastWriter writers variable_)
  if writer = node.nodeId then none
  else pure ⟨writer, node.nodeId, .dataDependency, some variable_⟩

def recordWrites (writers : LastWriters) (node : SemanticNode) : LastWriters :=
  node.variableWrites.foldl (fun writers variable_ => (variable_, node.nodeId) :: writers) writers

/-- Intra-routine last-writer dependencies. -/
def dependencyEdges : LastWriters → List SemanticNode → List EdgeKey
  | _, [] => []
  | writers, node :: rest =>
    node.variableReads.filterMap (dependencyEdge writers node) ++
      dependencyEdges (recordWrites writers node) rest

/-! ## The edges -/

/-- What the passes ask for. -/
def requestedEdges : List EdgeKey :=
  (handlers nodes).filterMap (handlerEdge nodes exitId) ++
    nodes.filterMap (fun node => (transfer nodes exitId node).bind Except.toOption) ++
    nodes.filterMap (loopFalseExit nodes exitId) ++
    nodes.flatMap (decisionEdges nodes exitId) ++
    nodes.flatMap (exceptionEdges nodes) ++
    nodes.filterMap (callEdge nodes) ++
    dependencyEdges [] nodes

/-- `control_edges` after all passes. -/
def controlEdges (edges : List SemanticEdge) : List SemanticEdge :=
  (requestedEdges nodes exitId).foldl addEdge (edges.filter (keepsEdge nodes))

end Passes

/-- The loop that leaves out an edge with the key of an earlier one. -/
def distinctEdges : List EdgeKey → List SemanticEdge → List SemanticEdge
  | _, [] => []
  | seen, edge :: rest =>
    if edge.key ∈ seen then distinctEdges seen rest
    else edge :: distinctEdges (edge.key :: seen) rest

/-- `f"edge-{index + 1:04d}"` -/
def edgeId (index : Nat) : List Char := "edge-".toList ++ fourDigits (index + 1)

/-- `unique` -/
def uniqueEdges (edges : List SemanticEdge) : List SemanticEdge :=
  (distinctEdges [] edges).mapIdx fun index edge => { edge with edgeId := edgeId index }

/-! ## Reachability -/

/-- Calls and data dependencies are evidence only. -/
def EdgeKind.isControl (kind : EdgeKind) : Bool := kind ≠ .calls && kind ≠ .dataDependency

/-- `adjacency.get(ref, ())` -/
def adjacent (edges : List SemanticEdge) (ref : List Char) : List (List Char) :=
  (edges.filter fun edge => edge.kind.isControl && edge.sourceRef = ref).map SemanticEdge.targetRef

/-- The loop over the queue. -/
def reachableRefs (edges : List SemanticEdge) (entryId : List Char) : List (List Char) :=
  explore (adjacent edges) (edges.length + 1) [entryId] [entryId]

/-- The structural root of handlers counts as reachable with a descendant that is. -/
def addHandlerRoot (nodes : List SemanticNode) (reachable : List (List Char))
    (node : SemanticNode) :
    List (List Char) :=
  if node.kind = .errorHandler && nodes.any fun candidate =>
      candidate.nodeId ∈ reachable && isDescendant nodes candidate.nodeId node.nodeId then
    node.nodeId :: reachable
  else reachable

/-- A node after the reachability pass. -/
def adjust (reachable : List (List Char)) (node : SemanticNode) : SemanticNode :=
  if node.kind ∈ [.entry, .exit, .callTarget] ∨ node.nodeId ∈ reachable then node
  else { node with modality := .unknown }

/-- What the reachability pass finds about a node; `known` are the offsets reported before. -/
def unreachableFinding (reachable : List (List Char)) (known : List Nat) (node : SemanticNode) :
    Option SemanticFinding :=
  if node.kind ∈ [.entry, .exit, .callTarget] ∨ node.nodeId ∈ reachable then none
  else if node.kind ∈ [.block, .errorHandler] then none
  else if node.sourceSpan.startOffset ∈ known then none
  else some ⟨"UNREACHABLE_STATEMENT", "WARNING", some node.sourceSpan,
    "Its effects are retained as evidence but cannot be classified as executed on a reachable path."⟩

/-! ## The whole -/

/-- What `refine_control_flow` returns. -/
structure RefinedFlow where
  nodes : List SemanticNode
  edges : List SemanticEdge
  findings : List SemanticFinding

/-- `source_nodes` -/
def sourceNodes (nodes : List SemanticNode) : List SemanticNode :=
  nodes.filter fun node => node.kind ≠ .callTarget

/-- `refine_control_flow` -/
def refineControlFlow (nodes : List SemanticNode) (edges : List SemanticEdge)
    (findings : List SemanticFinding) (entryId exitId : List Char) : RefinedFlow :=
  let source := sourceNodes nodes
  let unique := uniqueEdges (controlEdges source exitId edges)
  let reachable := source.foldl (addHandlerRoot source) (reachableRefs unique entryId)
  let transferFindings := source.filterMap fun node =>
    match transfer source exitId node with
    | some (.error finding) => some finding
    | _ => none
  let known := ((findings ++ transferFindings).filter fun finding =>
    finding.code = "UNREACHABLE_STATEMENT").filterMap fun finding =>
      finding.sourceSpan.map SourceSpan.startOffset
  let all := source ++ callTargets source
  { nodes := all.map (adjust reachable)
    edges := unique
    findings := findings ++ transferFindings ++ all.filterMap (unreachableFinding reachable known) }

end AtlasDb.Dialects
