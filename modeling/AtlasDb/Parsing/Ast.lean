import AtlasDb.Core.Text

/-!
# The procedure AST

`parsing/models.py`. The source keeps a flat table of nodes that name their children and their
lexical scope by reference; here the table is the tree it describes, so a child is the subtree and
a scope is the enclosing compound or handler. The functions that list a subtree follow the order of
`ast.nodes`, a node before its descendants.

A simple statement carries the bindings the analyses read; a region carries its header.
-/

namespace AtlasDb.Parsing

abbrev NodeRef : Type := String

/-! ## Statements -/

/-- The node kinds that are not regions. -/
inductive StatementKind where
  | declareVariable
  | declareCursor
  | declareCondition
  | set
  | selectInto
  | signal
  | resignal
  | getDiagnostics
  | call
  | dml
  | commit
  | rollback
  | savepoint
  | return
  | openCursor
  | fetchCursor
  | closeCursor
  | leave
  | iterate
  | prepare
  | execute
  | executeImmediate
  | opaqueRegion
deriving DecidableEq

structure AssignmentBinding where
  targetName : String
  expressionText : String
deriving DecidableEq

structure FetchBinding where
  cursorName : String
  targetNames : List String
deriving DecidableEq

structure DynamicPrepareBinding where
  statementName : String
  sourceExpression : String
deriving DecidableEq

inductive ExecutionKind where
  | prepared
  | immediate
deriving DecidableEq

structure DynamicExecuteBinding where
  executionKind : ExecutionKind
  statementName : Option String := none
  sourceExpression : Option String := none
  intoTargetNames : List String := []
  usingExpressions : List String := []
deriving DecidableEq

/-- A statement without substructure. `selectIntoTargets` are the target names of its
`SelectIntoBinding`. -/
structure Statement where
  kind : StatementKind
  text : String
  startOffset : Nat := 0
  assignment : Option AssignmentBinding := none
  selectIntoTargets : Option (List String) := none
  fetch : Option FetchBinding := none
  prepare : Option DynamicPrepareBinding := none
  execute : Option DynamicExecuteBinding := none
deriving DecidableEq

/-! ## Regions -/

inductive HandlerKind where
  | continue
  | exit
  | undo
deriving DecidableEq

structure HandlerRegion where
  handlerKind : HandlerKind
  handledConditionText : String
  resolvedSqlstate : Option String := none
deriving DecidableEq

inductive LoopKind where
  | loop
  | while
  | repeat
  | for
deriving DecidableEq

structure LoopRegion where
  loopKind : LoopKind
  label : Option String := none
  conditionText : Option String := none
deriving DecidableEq

inductive ArmKind where
  | if
  | elseif
  | else
deriving DecidableEq

structure IfArm where
  armId : NodeRef
  armKind : ArmKind
  conditionText : Option String := none
deriving DecidableEq

mutual

inductive Node where
  | simple (id : NodeRef) (stmt : Statement)
  | compound (id : NodeRef) (label : Option String) (text : String) (body : List Node)
  | ifRegion (id : NodeRef) (arms : List Arm)
  | loop (id : NodeRef) (region : LoopRegion) (body : List Node)
  | handler (id : NodeRef) (region : HandlerRegion) (body : List Node)

inductive Arm where
  | mk (header : IfArm) (body : List Node)

end

namespace Node

def id : Node → NodeRef
  | simple id _ => id
  | compound id _ _ _ => id
  | ifRegion id _ => id
  | loop id _ _ => id
  | handler id _ _ => id

/-- `_declaration_kinds` of the graph builder: nodes without a place in the control flow. -/
def isDeclaration : Node → Bool
  | simple _ stmt =>
    match stmt.kind with
    | .declareVariable | .declareCursor | .declareCondition => true
    | _ => false
  | handler _ _ _ => true
  | _ => false

end Node

namespace Arm

def header : Arm → IfArm
  | mk header _ => header

def body : Arm → List Node
  | mk _ body => body

end Arm

/-! ## References -/

mutual

/-- Every reference of a subtree, a node before its descendants. -/
def Node.refs : Node → List NodeRef
  | .simple id _ => [id]
  | .compound id _ _ body => id :: refsOf body
  | .ifRegion id arms => id :: refsOfArms arms
  | .loop id _ body => id :: refsOf body
  | .handler id _ body => id :: refsOf body

def refsOf : List Node → List NodeRef
  | [] => []
  | n :: ns => n.refs ++ refsOf ns

def refsOfArms : List Arm → List NodeRef
  | [] => []
  | .mk header body :: arms => header.armId :: (refsOf body ++ refsOfArms arms)

end

/-! ## Handlers of a scope -/

/-- A handler declaration. -/
structure Handler where
  id : NodeRef
  region : HandlerRegion
  body : List Node

mutual

/-- The handlers whose `lexical_scope_ref` is the scope a node stands in. IF arms and loops open no
scope; a compound and a handler do, so their own declarations are not among them. -/
def Node.scopeHandlers : Node → List Handler
  | .simple _ _ => []
  | .compound _ _ _ _ => []
  | .ifRegion _ arms => scopeHandlersOfArms arms
  | .loop _ _ body => scopeHandlersOf body
  | .handler id region body => [⟨id, region, body⟩]

def scopeHandlersOf : List Node → List Handler
  | [] => []
  | n :: ns => n.scopeHandlers ++ scopeHandlersOf ns

def scopeHandlersOfArms : List Arm → List Handler
  | [] => []
  | .mk _ body :: arms => scopeHandlersOf body ++ scopeHandlersOfArms arms

end

mutual

/-- Every handler of a subtree, in the order of the table. -/
def Node.handlers : Node → List Handler
  | .simple _ _ => []
  | .compound _ _ _ body => handlersOf body
  | .ifRegion _ arms => handlersOfArms arms
  | .loop _ _ body => handlersOf body
  | .handler id region body => ⟨id, region, body⟩ :: handlersOf body

def handlersOf : List Node → List Handler
  | [] => []
  | n :: ns => n.handlers ++ handlersOf ns

def handlersOfArms : List Arm → List Handler
  | [] => []
  | .mk _ body :: arms => handlersOf body ++ handlersOfArms arms

end

mutual

/-- Every simple statement of a subtree with its reference, in the order of the table. -/
def Node.statements : Node → List (NodeRef × Statement)
  | .simple id stmt => [(id, stmt)]
  | .compound _ _ _ body => statementsOf body
  | .ifRegion _ arms => statementsOfArms arms
  | .loop _ _ body => statementsOf body
  | .handler _ _ body => statementsOf body

def statementsOf : List Node → List (NodeRef × Statement)
  | [] => []
  | n :: ns => n.statements ++ statementsOf ns

def statementsOfArms : List Arm → List (NodeRef × Statement)
  | [] => []
  | .mk _ body :: arms => statementsOf body ++ statementsOfArms arms

end

mutual

/-- The references inside the loops of a subtree (`collect_loop_descendants`). -/
def Node.loopRefs : Node → List NodeRef
  | .simple _ _ => []
  | .compound _ _ _ body => loopRefsOf body
  | .ifRegion _ arms => loopRefsOfArms arms
  | .loop _ _ body => refsOf body
  | .handler _ _ body => loopRefsOf body

def loopRefsOf : List Node → List NodeRef
  | [] => []
  | n :: ns => n.loopRefs ++ loopRefsOf ns

def loopRefsOfArms : List Arm → List NodeRef
  | [] => []
  | .mk _ body :: arms => loopRefsOf body ++ loopRefsOfArms arms

end

/-! ## Procedures -/

inductive ParameterMode where
  | in
  | out
  | inout
deriving DecidableEq

structure ProcedureParameter where
  name : String
  mode : ParameterMode
deriving DecidableEq

/-- A cursor declared `WITH RETURN`. -/
structure ReturnedCursorDeclaration where
  cursorName : String
  returnScope : String
deriving DecidableEq

/-- A parsed procedure. References are digests of kind, range and text, so no two nodes share
one. -/
structure ProcedureAst where
  nodeId : NodeRef
  parameters : List ProcedureParameter
  commitOnReturn : Option String
  returnedCursors : List ReturnedCursorDeclaration := []
  body : List Node
  distinct : (refsOf body).Nodup

/-! ## Append lemmas -/

@[simp] theorem refsOf_append (xs ys : List Node) : refsOf (xs ++ ys) = refsOf xs ++ refsOf ys := by
  induction xs with
  | nil => rfl
  | cons x xs ih => simp [refsOf, ih]

@[simp] theorem handlersOf_append (xs ys : List Node) :
    handlersOf (xs ++ ys) = handlersOf xs ++ handlersOf ys := by
  induction xs with
  | nil => rfl
  | cons x xs ih => simp [handlersOf, ih]

@[simp] theorem statementsOf_append (xs ys : List Node) :
    statementsOf (xs ++ ys) = statementsOf xs ++ statementsOf ys := by
  induction xs with
  | nil => rfl
  | cons x xs ih => simp [statementsOf, ih]

end AtlasDb.Parsing
