import AtlasDb.Parsing.Ast
import Mathlib.Algebra.Group.Int.Defs

/-!
# The control-flow graph

`analysis/cfg.py: ControlFlowGraphBuilder`. The graph is given by its edges, in the order they are
added; adding an edge a second time changes nothing the analyses look at, so no edge is removed.

`_build_sequence` and `_build_node` return the entry of what they build and add edges on the way.
Here the entry (`seqEntry`, `nodeEntry`) and the edges (`seqEdges`, `nodeEdges`) are two functions.
A control stack is kept innermost context first.
-/

namespace AtlasDb.Analysis

open Core Parsing

/-! ## References and edges -/

/-- The digests the source uses as references stand for what they are taken of. -/
inductive CfgRef where
  | entry
  | normalExit
  | exceptionalExit
  | ast (node : NodeRef)
  | handlerExit (handler : NodeRef)
deriving DecidableEq

inductive CfgEdgeKind where
  | entry
  | sequential
  | ifArm
  | ifNoMatch
  | loopBody
  | loopExit
  | leave
  | iterate
  | return
  | signal
  | resignal
  | handler
  | handlerBody
  | handlerFallthrough
deriving DecidableEq

structure CfgEdge where
  source : CfgRef
  target : CfgRef
  kind : CfgEdgeKind
  conditionText : Option String := none
  branchIndex : Option Nat := none
  handlerRegionRef : Option NodeRef := none
  continuationTarget : Option CfgRef := none
deriving DecidableEq

/-- `_ControlContext`. -/
structure ControlContext where
  exitRef : CfgRef
  label : Option String
  loopHeader : Option CfgRef := none
deriving DecidableEq

/-- `(label or "").upper() or None`. -/
def contextLabel (label : Option String) : Option String :=
  match label with
  | none => none
  | some text => if text = "" then none else some (Text.upperString text)

/-! ## Jumps -/

/-- `_jump_label`: the second word of a `LEAVE` or `ITERATE`. -/
def jumpLabel (text : String) : Option String :=
  let words := Text.split ((Text.strip text.toList).reverse.dropWhile (· = ';')).reverse
  words[1]?.map fun word => String.ofList (Text.upper (Text.stripBy (· = '"') word))

/-- A context a jump may go to. -/
def ControlContext.accepts (label : Option String) (iterate : Bool) (c : ControlContext) : Bool :=
  (label.isNone || c.label = label) && (!iterate || c.loopHeader.isSome)

/-- `_resolve_control_target`. -/
def resolveControlTarget (label : Option String) (iterate : Bool) (stack : List ControlContext) :
    CfgRef :=
  match stack.find? (ControlContext.accepts label iterate) with
  | some context => if iterate then context.loopHeader.getD context.exitRef else context.exitRef
  | none => if !iterate && label.isSome then .normalExit else .exceptionalExit

/-! ## Literal conditions -/

/-- A literal of `_literal_comparison`: a decimal as mantissa and scale, or a string. -/
inductive Literal where
  | decimal (mantissa : Int) (scale : Nat)
  | string (text : List Char)
deriving DecidableEq

def isDigit (c : Char) : Bool := '0' ≤ c && c ≤ '9'

def natOfDigits (digits : List Char) : Nat :=
  digits.foldl (fun n c => 10 * n + (c.toNat - 48)) 0

/-- The rest of a string literal after its opening quote, with `''` read as one quote. -/
def readString (acc : List Char) : List Char → Option (List Char × List Char)
  | [] => none
  | '\'' :: '\'' :: cs => readString ('\'' :: acc) cs
  | '\'' :: cs => some (acc.reverse, cs)
  | c :: cs => readString (c :: acc) cs

/-- `-?\d+(?:\.\d+)?`, without the sign. -/
def readDecimal (negative : Bool) (text : List Char) : Option (Literal × List Char) :=
  let whole := text.takeWhile isDigit
  let rest := text.dropWhile isDigit
  let signed := fun (n : Nat) => if negative then -(n : Int) else n
  if whole = [] then none
  else
    match rest with
    | '.' :: tail =>
      let fraction := tail.takeWhile isDigit
      if fraction = [] then some (.decimal (signed (natOfDigits whole)) 0, rest)
      else some (.decimal (signed (natOfDigits (whole ++ fraction))) fraction.length,
        tail.dropWhile isDigit)
    | _ => some (.decimal (signed (natOfDigits whole)) 0, rest)

def readLiteral : List Char → Option (Literal × List Char)
  | '\'' :: cs => (readString [] cs).map fun r => (.string r.1, r.2)
  | '-' :: cs => readDecimal true cs
  | cs => readDecimal false cs

inductive Comparison where
  | eq
  | ne
  | le
  | ge
  | lt
  | gt
deriving DecidableEq

def readComparison : List Char → Option (Comparison × List Char)
  | '=' :: cs => some (.eq, cs)
  | '<' :: '>' :: cs => some (.ne, cs)
  | '!' :: '=' :: cs => some (.ne, cs)
  | '<' :: '=' :: cs => some (.le, cs)
  | '>' :: '=' :: cs => some (.ge, cs)
  | '<' :: cs => some (.lt, cs)
  | '>' :: cs => some (.gt, cs)
  | _ => none

def Comparison.holds {α : Type} [LT α] [DecidableEq α] [DecidableLT α] (op : Comparison)
    (a b : α) : Bool :=
  match op with
  | eq => a = b
  | ne => a ≠ b
  | lt => a < b
  | gt => b < a
  | le => ¬ b < a
  | ge => ¬ a < b

/-- `_literal_condition_truth`: the truth of a comparison of two literals of one kind. -/
def literalConditionTruth (condition : Option String) : Option Bool := do
  let text ← condition
  let skip := List.dropWhile Text.isSpace
  let (left, rest) ← readLiteral (skip text.toList)
  let (op, rest) ← readComparison (skip rest)
  let (right, rest) ← readLiteral (skip rest)
  if skip rest = [] then
    match left, right with
    | .string a, .string b => some (op.holds a b)
    | .decimal a s, .decimal b t => some (op.holds (a * 10 ^ t) (b * 10 ^ s))
    | _, _ => none
  else none

/-! ## The structural edges -/

/-- The reference `_build_node` returns. -/
def nodeEntry (n : Node) (continuation : CfgRef) : CfgRef :=
  if n.isDeclaration then continuation else .ast n.id

/-- The reference `_build_sequence` returns. -/
def seqEntry : List Node → CfgRef → CfgRef
  | [], continuation => continuation
  | n :: ns, continuation => nodeEntry n (seqEntry ns continuation)

def armTruth (arm : IfArm) : Option Bool :=
  if arm.armKind = .else then some true else literalConditionTruth arm.conditionText

/-- The edge out of a simple statement that is not a declaration. -/
def statementEdge (id : NodeRef) (stmt : Statement) (continuation : CfgRef)
    (stack : List ControlContext) : CfgEdge :=
  match stmt.kind with
  | .return => { source := .ast id, target := .normalExit, kind := .return }
  | .resignal => { source := .ast id, target := .exceptionalExit, kind := .resignal }
  | .signal => { source := .ast id, target := .exceptionalExit, kind := .signal }
  | .leave =>
    { source := .ast id, target := resolveControlTarget (jumpLabel stmt.text) false stack,
      kind := .leave }
  | .iterate =>
    { source := .ast id, target := resolveControlTarget (jumpLabel stmt.text) true stack,
      kind := .iterate }
  | _ => { source := .ast id, target := continuation, kind := .sequential }

theorem statementEdge_source (id : NodeRef) (stmt : Statement) (continuation : CfgRef)
    (stack : List ControlContext) :
    (statementEdge id stmt continuation stack).source = .ast id := by
  unfold statementEdge
  split <;> rfl

/-- `_negated_condition`. -/
def negatedCondition : Option String → Option String
  | none => none
  | some text => if text = "" then none else some ("NOT (" ++ text ++ ")")

def blockContext (label : Option String) (exit : CfgRef) : ControlContext :=
  { exitRef := exit, label := contextLabel label }

def loopContext (id : NodeRef) (region : LoopRegion) (exit : CfgRef) : ControlContext :=
  { exitRef := exit, label := contextLabel region.label, loopHeader := some (.ast id) }

mutual

/-- The edges `_build_node` adds. -/
def nodeEdges : Node → CfgRef → List ControlContext → List CfgEdge
  | .simple id stmt, continuation, stack =>
    if (Node.simple id stmt).isDeclaration then []
    else [statementEdge id stmt continuation stack]
  | .compound id label _ body, continuation, stack =>
    seqEdges body continuation (blockContext label continuation :: stack) ++
      [{ source := .ast id, target := seqEntry body continuation, kind := .sequential }]
  | .ifRegion id arms, continuation, stack => armEdges id 0 false false arms continuation stack
  | .loop id region body, continuation, stack =>
    seqEdges body (.ast id) (loopContext id region continuation :: stack) ++
      { source := .ast id, target := seqEntry body (.ast id), kind := .loopBody,
        conditionText := region.conditionText } ::
      (if region.loopKind = .loop then []
       else [{ source := .ast id, target := continuation, kind := .loopExit,
               conditionText := negatedCondition region.conditionText }])
  | .handler _ _ _, _, _ => []

/-- The edges `_build_sequence` adds; the last statement is built first. -/
def seqEdges : List Node → CfgRef → List ControlContext → List CfgEdge
  | [], _, _ => []
  | n :: ns, continuation, stack =>
    seqEdges ns continuation stack ++ nodeEdges n (seqEntry ns continuation) stack

/-- The loop over the arms of an IF region, with the flags `has_else` and `prior_arm_always_taken`
at arm `index`. -/
def armEdges (id : NodeRef) (index : Nat) (hasElse always : Bool) :
    List Arm → CfgRef → List ControlContext → List CfgEdge
  | [], continuation, _ =>
    if !hasElse && !always then
      [{ source := .ast id, target := continuation, kind := .ifNoMatch }]
    else []
  | .mk arm body :: arms, continuation, stack =>
    seqEdges body continuation stack ++
      { source := .ast arm.armId, target := seqEntry body continuation, kind := .sequential } ::
      ((if always || armTruth arm = some false then []
        else [{ source := .ast id, target := .ast arm.armId, kind := .ifArm,
                conditionText := arm.conditionText, branchIndex := some index }]) ++
       armEdges id (index + 1) (hasElse || arm.armKind = .else)
         (always || armTruth arm = some true) arms continuation stack)

end

/-! ## Handler subgraphs -/

/-- Where the body of a handler falls through to. -/
def handlerFallthrough (h : Handler) : CfgRef :=
  if h.region.handlerKind = .continue then .handlerExit h.id else .normalExit

/-- One turn of `_build_handler_subgraphs`. The body is built with an empty control stack. -/
def handlerEdges (h : Handler) : List CfgEdge :=
  seqEdges h.body (handlerFallthrough h) [] ++
    { source := .ast h.id, target := seqEntry h.body (handlerFallthrough h),
        kind := .handlerBody } ::
    (if seqEntry h.body (handlerFallthrough h) = handlerFallthrough h then
      [{ source := .ast h.id, target := handlerFallthrough h, kind := .handlerFallthrough }]
     else [])

/-! ## Handler bindings -/

/-- `_not_found_sources`. -/
def isNotFoundSource : StatementKind → Bool
  | .selectInto | .fetchCursor => true
  | _ => false

/-- `_sql_exception_sources`. -/
def isSqlExceptionSource : StatementKind → Bool
  | .selectInto | .dml | .call | .openCursor | .fetchCursor | .closeCursor | .prepare | .execute
  | .executeImmediate | .commit | .rollback | .getDiagnostics | .signal => true
  | _ => false

/-- `_handler_applies`. -/
def handlerApplies (region : HandlerRegion) (source : Statement) : Bool :=
  let condition := Text.normalized region.handledConditionText
  if region.resolvedSqlstate = some "02000" ∨ condition = "NOT FOUND" then
    isNotFoundSource source.kind ||
      (source.kind = .execute &&
        Text.containsList " INTO ".toList ((' ' :: Text.upper source.text.toList) ++ [' ']))
  else if condition = "SQLEXCEPTION" ∨ condition = "SQLWARNING" then
    isSqlExceptionSource source.kind
  else if region.resolvedSqlstate.isSome ∨ "SQLSTATE".toList.isPrefixOf condition.toList then
    isSqlExceptionSource source.kind
  else false

/-- `_handler_condition_key`. -/
def handlerConditionKey (region : HandlerRegion) : String :=
  match region.resolvedSqlstate with
  | some sqlstate => "SQLSTATE:" ++ sqlstate
  | none => Text.normalized region.handledConditionText

/-- Keep the first handler of each condition key. -/
def firstPerKey (seen : List String) : List Handler → List Handler
  | [] => []
  | h :: hs =>
    if handlerConditionKey h.region ∈ seen then firstPerKey seen hs
    else h :: firstPerKey (handlerConditionKey h.region :: seen) hs

/-- The handlers `_bind_handlers` picks for a source, given the handlers of its enclosing scopes,
innermost scope first. Of the applicable handlers with one condition key the source takes the
deepest, the first of them in document order; in this order of the scopes it is the first. -/
def boundHandlers (scopes : List (List Handler)) (source : Statement) : List Handler :=
  firstPerKey [] (scopes.flatten.filter fun h => handlerApplies h.region source)

/-- `HandlerFlowBinding`. -/
structure HandlerFlowBinding where
  sourceRef : NodeRef
  handler : Handler
  continuationTarget : CfgRef

/-- `continuation` of `_bind_handlers`, from the map of `_normal_successors`. -/
def bindingContinuation (successors : CfgRef → Option CfgRef) (source : NodeRef) (h : Handler) :
    CfgRef :=
  if h.region.handlerKind = .continue then (successors (.ast source)).getD .normalExit
  else .normalExit

def sourceBindings (successors : CfgRef → Option CfgRef) (scopes : List (List Handler))
    (id : NodeRef) (stmt : Statement) : List HandlerFlowBinding :=
  (boundHandlers scopes stmt).map fun h => ⟨id, h, bindingContinuation successors id h⟩

mutual

/-- The bindings of the statements of a subtree. Handlers and what is inside them are no sources
(`_handler_descendants`). -/
def nodeBindings (successors : CfgRef → Option CfgRef) (scopes : List (List Handler)) :
    Node → List HandlerFlowBinding
  | .simple id stmt => sourceBindings successors scopes id stmt
  | .compound _ _ _ body => seqBindings successors (scopeHandlersOf body :: scopes) body
  | .ifRegion _ arms => armBindings successors scopes arms
  | .loop _ _ body => seqBindings successors scopes body
  | .handler _ _ _ => []

def seqBindings (successors : CfgRef → Option CfgRef) (scopes : List (List Handler)) :
    List Node → List HandlerFlowBinding
  | [] => []
  | n :: ns => nodeBindings successors scopes n ++ seqBindings successors scopes ns

def armBindings (successors : CfgRef → Option CfgRef) (scopes : List (List Handler)) :
    List Arm → List HandlerFlowBinding
  | [] => []
  | .mk _ body :: arms => seqBindings successors scopes body ++ armBindings successors scopes arms

end

/-- The handler edge of a binding. -/
def HandlerFlowBinding.edge (b : HandlerFlowBinding) : CfgEdge :=
  { source := .ast b.sourceRef, target := .ast b.handler.id, kind := .handler,
    conditionText := some (b.handler.region.resolvedSqlstate.getD
      b.handler.region.handledConditionText),
    handlerRegionRef := some b.handler.id, continuationTarget := some b.continuationTarget }

/-! ## The graph -/

/-- The edges added before handlers are bound. -/
def structuralEdges (ast : ProcedureAst) : List CfgEdge :=
  seqEdges ast.body .normalExit [] ++
    { source := .entry, target := seqEntry ast.body .normalExit, kind := .entry } ::
    (handlersOf ast.body).flatMap handlerEdges

/-- `_normal_successors`: the target of the first edge of a node that is not a handler, SIGNAL or
RESIGNAL edge. -/
def normalSuccessors (edges : List CfgEdge) (source : CfgRef) : Option CfgRef :=
  (edges.find? fun e => e.source = source && e.kind ≠ .handler && e.kind ≠ .signal &&
    e.kind ≠ .resignal).map CfgEdge.target

/-- The handlers declared in the procedure body itself. -/
def procedureScopes (ast : ProcedureAst) : List (List Handler) := [scopeHandlersOf ast.body]

def handlerBindings (ast : ProcedureAst) : List HandlerFlowBinding :=
  seqBindings (normalSuccessors (structuralEdges ast)) (procedureScopes ast) ast.body

/-- The edges of the graph. -/
def cfgEdges (ast : ProcedureAst) : List CfgEdge :=
  structuralEdges ast ++ (handlerBindings ast).map HandlerFlowBinding.edge

mutual

/-- The nodes of a subtree that have a node of the graph: all but the declarations of variables,
cursors and conditions. -/
def nodeCfgRefs : Node → List NodeRef
  | .simple id stmt => if (Node.simple id stmt).isDeclaration then [] else [id]
  | .compound id _ _ body => id :: seqCfgRefs body
  | .ifRegion id arms => id :: armCfgRefs arms
  | .loop id _ body => id :: seqCfgRefs body
  | .handler id _ body => id :: seqCfgRefs body

def seqCfgRefs : List Node → List NodeRef
  | [] => []
  | n :: ns => nodeCfgRefs n ++ seqCfgRefs ns

def armCfgRefs : List Arm → List NodeRef
  | [] => []
  | .mk header body :: arms => header.armId :: (seqCfgRefs body ++ armCfgRefs arms)

end

structure ControlFlowGraph where
  nodes : List CfgRef
  edges : List CfgEdge
  handlerBindings : List HandlerFlowBinding

/-- `ControlFlowGraphBuilder.build`. -/
def ControlFlowGraph.build (ast : ProcedureAst) : ControlFlowGraph where
  nodes := [.entry, .normalExit, .exceptionalExit] ++ (seqCfgRefs ast.body).map .ast ++
    (handlersOf ast.body).map fun h => .handlerExit h.id
  edges := cfgEdges ast
  handlerBindings := Analysis.handlerBindings ast

end AtlasDb.Analysis
