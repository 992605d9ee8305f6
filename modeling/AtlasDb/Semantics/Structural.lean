import AtlasDb.Analysis.Cfg
import AtlasDb.Lib.Trace
import AtlasDb.Parsing.Lexer

/-!
# Executions of a procedure

The structural semantics the AST records: statements run in sequence, an IF takes the first arm
whose condition is true, loops repeat their body, `LEAVE` and `ITERATE` go to the construct they
name, and a statement, also the condition of an `IF` or a loop, either completes or raises a
condition that the innermost scope with an applicable handler catches. A `CONTINUE` handler resumes
after what raised, an `EXIT` or `UNDO` handler after the compound that declares it. Data is left
out: a condition that is not a comparison of two literals may come out either way. Labels, literals
and what can be raised are read as Db2 reads them (`Reading.sql`) or as the graph builder does
(`Reading.builder`): it takes the second word of a jump for its label, whatever the scanner makes of
it, compares string literals without padding them, and lets only some statements raise.

A configuration is the code still to run in the current block and a stack of frames for what
surrounds it. The stack below a handler frame is that of the raising statement, so a search for a
label or an enclosing handler from inside the handler first skips to the block that declares it.
-/

namespace AtlasDb.Semantics

open Core Lib Parsing Analysis

/-! ## What the text says -/

/-- The tokens of a statement without semicolons. -/
def statementTokens (text : String) : List Token :=
  (scan text).tokens.filter fun t => t.value ≠ ";"

/-- The statement itself, if a label stands before it. -/
def afterLabel : List Token → List Token
  | label :: colon :: first :: rest =>
    if colon.value = ":" then first :: rest else label :: colon :: first :: rest
  | tokens => tokens

/-- A label as the AST keeps it. -/
def foldLabel (value : String) : String :=
  String.ofList (Text.upper (Text.stripBy (· = '"') value.toList))

/-- The label a `LEAVE` or `ITERATE` names: the token after the keyword. -/
def spelledLabel (text : String) : Option String :=
  ((afterLabel (statementTokens text))[1]?).map fun t => foldLabel t.value

/-- The two literals of a condition that compares literals. -/
def literalComparison (text : String) : Option (Literal × Comparison × Literal) := do
  let skip := List.dropWhile Text.isSpace
  let (left, rest) ← readLiteral (skip text.toList)
  let (op, rest) ← readComparison (skip rest)
  let (right, rest) ← readLiteral (skip rest)
  if skip rest = [] then some (left, op, right) else none

/-- The weights of a string in the collating sequence, padded with blanks. -/
def paddedWeights (collate : Char → Nat) (length : Nat) (text : List Char) : List Nat :=
  (text ++ List.replicate (length - text.length) ' ').map collate

/-- The shorter string is padded with blanks before two strings are compared. -/
def stringsHold (collate : Char → Nat) (op : Comparison) (a b : List Char) : Bool :=
  op.holds (paddedWeights collate b.length a) (paddedWeights collate a.length b)

def literalsHold (collate : Char → Nat) : Literal × Comparison × Literal → Option Bool
  | (.string a, op, .string b) => some (stringsHold collate op a b)
  | (.decimal a s, op, .decimal b t) => some (op.holds (a * 10 ^ t) (b * 10 ^ s))
  | _ => none

/-- The truth of an arm, in a database with this collating sequence. -/
def sqlTruth (collate : Char → Nat) (arm : IfArm) : Option Bool :=
  if arm.armKind = .else then some true
  else (arm.conditionText.bind literalComparison).bind (literalsHold collate)

/-- What the AST keeps as text only: the label a jump names, the truth of a condition that compares
two literals, and what a statement can raise. -/
structure Reading where
  label : Statement → Option String
  truth : IfArm → Option Bool
  raises : HandlerRegion → Statement → Prop

/-- The reading of the language, in which any statement may raise any condition. -/
abbrev Reading.sql (collate : Char → Nat) : Reading :=
  ⟨fun stmt => spelledLabel stmt.text, sqlTruth collate, fun _ _ => True⟩

/-- The graph builder's reading. `RESIGNAL` passes on whatever was raised before. -/
abbrev Reading.builder : Reading :=
  ⟨fun stmt => jumpLabel stmt.text, armTruth,
    fun region stmt => handlerApplies region stmt = true ∨ stmt.kind = .resignal⟩

/-! ## Conditions -/

/-- What conditions there are and which handler is declared for which. Handlers for the same
condition key catch the same conditions. -/
structure ConditionModel where
  Condition : Type
  catches : HandlerRegion → Condition → Prop
  respectsKey : ∀ {r r' : HandlerRegion} {c : Condition},
    handlerConditionKey r = handlerConditionKey r' → catches r c → catches r' c

/-- One condition, which every handler is declared for. -/
def ConditionModel.single : ConditionModel where
  Condition := Unit
  catches _ _ := True
  respectsKey _ h := h

/-- The handler may catch the condition raised by the statement. -/
def Applicable (R : Reading) (M : ConditionModel) (stmt : Statement) (c : M.Condition)
    (h : Handler) : Prop :=
  M.catches h.region c ∧ R.raises h.region stmt

/-- `h` takes the condition: its scope is the innermost one with an applicable handler, and no
earlier handler of that scope is declared for the same condition. -/
def TakesBy (R : Reading) (M : ConditionModel) (scopes : List (List Handler)) (stmt : Statement)
    (c : M.Condition) (h : Handler) : Prop :=
  ∃ inner scope outer before after,
    scopes = inner ++ scope :: outer ∧ scope = before ++ h :: after ∧
    Applicable R M stmt c h ∧ (∀ h' ∈ inner.flatten, ¬ Applicable R M stmt c h') ∧
    ∀ h' ∈ before, handlerConditionKey h'.region = handlerConditionKey h.region →
      ¬ Applicable R M stmt c h'

abbrev Takes (M : ConditionModel) : List (List Handler) → Statement → M.Condition →
    Handler → Prop :=
  TakesBy .builder M

/-! ## Configurations -/

structure Loop where
  id : NodeRef
  region : LoopRegion
  body : List Node

def Loop.node (l : Loop) : Node := .loop l.id l.region l.body

/-- What surrounds the code being run; `rest` is what follows it there. A running handler keeps the
statement that raised. -/
inductive Frame where
  | block (label : Option String) (scope : List Handler) (rest : List Node)
  | loop (loop : Loop) (rest : List Node)
  | handler (h : Handler) (source : Statement) (rest : List Node)

inductive Config where
  | run (code : List Node) (frames : List Frame)
  /-- Control is at the header of a loop; `again` after the first time. -/
  | header (loop : Loop) (again : Bool) (rest : List Node) (frames : List Frame)
  | returned
  | escaped

/-- The scope declares the handler. -/
def declares (scope : List Handler) (id : NodeRef) : Bool := scope.any fun h => h.id = id

/-- The scopes whose handlers are active, innermost first. The body of a handler is a scope of its
own; what surrounds it is the scope that declares the handler, which is not active, and the scopes
around that one: the frames in between (`skip`) belong to the raising statement. -/
def activeScopes (procedureScope : List Handler) :
    Option NodeRef → List Frame → List (List Handler)
  | none, [] => [procedureScope]
  | some _, [] => []
  | none, .block _ scope _ :: k => scope :: activeScopes procedureScope none k
  | none, .loop _ _ :: k => activeScopes procedureScope none k
  | none, .handler h _ _ :: k =>
    scopeHandlersOf h.body :: activeScopes procedureScope (some h.id) k
  | some id, .block _ scope _ :: k =>
    activeScopes procedureScope (if declares scope id then none else some id) k
  | some id, .loop _ _ :: k => activeScopes procedureScope (some id) k
  | some id, .handler h _ _ :: k =>
    activeScopes procedureScope (some (if declares (scopeHandlersOf h.body) id then h.id else id)) k

/-- What follows the compound that declares the handler; `none` for the procedure body. -/
def exitDeclaring (id : NodeRef) : List Frame → Option (List Node × List Frame)
  | [] => none
  | .block _ scope rest :: k => if declares scope id then some (rest, k) else exitDeclaring id k
  | .loop _ _ :: k => exitDeclaring id k
  | .handler h source rest :: k =>
    if declares (scopeHandlersOf h.body) id then some ([], .handler h source rest :: k)
    else exitDeclaring id k

/-- The construct bears the label, or the jump names none. -/
def labelMatches (wanted label : Option String) : Bool :=
  wanted.isNone || contextLabel label = wanted

/-- Where a `LEAVE` or `ITERATE` goes. A label no construct bears is that of the procedure body. -/
def jump (wanted : Option String) (iterate : Bool) : Option NodeRef → List Frame → Option Config
  | _, [] => if !iterate && wanted.isSome then some .returned else none
  | none, .block label _ rest :: k =>
    if !iterate && labelMatches wanted label then some (.run rest k)
    else jump wanted iterate none k
  | none, .loop l rest :: k =>
    if labelMatches wanted l.region.label then
      some (if iterate then .header l true rest k else .run rest k)
    else jump wanted iterate none k
  | none, .handler h _ _ :: k => jump wanted iterate (some h.id) k
  | some id, .block label scope rest :: k =>
    if declares scope id then
      if !iterate && labelMatches wanted label then some (.run rest k)
      else jump wanted iterate none k
    else jump wanted iterate (some id) k
  | some id, .loop _ _ :: k => jump wanted iterate (some id) k
  | some id, .handler h _ _ :: k =>
    jump wanted iterate (some (if declares (scopeHandlersOf h.body) id then h.id else id)) k

/-! ## Steps -/

inductive Outcome where
  | completed
  | raised
deriving DecidableEq

/-- Control was at a node. -/
structure Visit where
  node : NodeRef
  outcome : Outcome
deriving DecidableEq

/-- Statements with no control effect of their own. -/
def isOrdinary : StatementKind → Bool
  | .declareVariable | .declareCursor | .declareCondition | .return | .signal | .resignal | .leave
  | .iterate => false
  | _ => true

def isJump : StatementKind → Bool
  | .leave | .iterate => true
  | _ => false

def isSignal : StatementKind → Bool
  | .signal | .resignal => true
  | _ => false

/-- A handler is being executed. -/
def inHandler : List Frame → Bool
  | [] => false
  | .handler _ _ _ :: _ => true
  | _ :: k => inHandler k

/-- The evaluation of the condition of an `IF` or a loop. -/
def evaluation : Statement := { kind := .opaqueRegion, text := "" }

/-- Control is where a condition may be raised, and `rest` and the frames are what comes after. -/
inductive RaisesAt : Config → NodeRef → Statement → List Node → List Frame → Prop where
  | statement {id stmt ns k} (hkind : isOrdinary stmt.kind = true ∨ isSignal stmt.kind = true ∨
      stmt.kind = .return) : RaisesAt (.run (.simple id stmt :: ns) k) id stmt ns k
  | ifCondition {id arms ns k} : RaisesAt (.run (.ifRegion id arms :: ns) k) id evaluation ns k
  | loopCondition {l again rest k} (hkind : l.region.loopKind ≠ .loop) :
      RaisesAt (.header l again rest k) l.id evaluation rest k

/-- The conditions of the arms before `arm` can be false or unknown and its own can be true. -/
def CanTakeBy (truth : IfArm → Option Bool) (arms : List Arm) (arm : Arm) : Prop :=
  ∃ before after, arms = before ++ arm :: after ∧
    (∀ a ∈ before, truth a.header ≠ some true) ∧ truth arm.header ≠ some false

def CanSkipBy (truth : IfArm → Option Bool) (arms : List Arm) : Prop :=
  ∀ a ∈ arms, truth a.header ≠ some true

abbrev CanSkip : List Arm → Prop := CanSkipBy armTruth

section

variable (R : Reading) (M : ConditionModel) (procedureScope : List Handler)

/-- One step, with the nodes control was at. -/
inductive StepBy : Config → List Visit → Config → Prop where
  | finish : StepBy (.run [] []) [] .returned
  | leaveBlock {label scope rest k} : StepBy (.run [] (.block label scope rest :: k)) []
    (.run rest k)
  | nextIteration {l rest k} : StepBy (.run [] (.loop l rest :: k)) [] (.header l true rest k)
  | resume {h source rest k} (hkind : h.region.handlerKind = .continue) :
      StepBy (.run [] (.handler h source rest :: k)) [] (.run rest k)
  | exitBlock {h source rest k rest' k'} (hkind : h.region.handlerKind ≠ .continue)
      (hexit : exitDeclaring h.id k = some (rest', k')) :
      StepBy (.run [] (.handler h source rest :: k)) [] (.run rest' k')
  | exitProcedure {h source rest k} (hkind : h.region.handlerKind ≠ .continue)
      (hexit : exitDeclaring h.id k = none) :
      StepBy (.run [] (.handler h source rest :: k)) [] .returned
  | declaration {n ns k} (hdecl : n.isDeclaration = true) :
      StepBy (.run (n :: ns) k) [] (.run ns k)
  | complete {id stmt ns k} (hkind : isOrdinary stmt.kind = true) :
      StepBy (.run (.simple id stmt :: ns) k) [⟨id, .completed⟩] (.run ns k)
  | raise {a id stmt rest k c h} (hat : RaisesAt a id stmt rest k)
      (hresignal : stmt.kind = .resignal → inHandler k = true)
      (htakes : TakesBy R M (activeScopes procedureScope none k) stmt c h) :
      StepBy a [⟨id, .raised⟩, ⟨h.id, .completed⟩] (.run h.body (.handler h stmt rest :: k))
  | escape {id stmt ns k} (c : M.Condition) (hkind : isSignal stmt.kind = true)
      (hfree : ∀ h ∈ (activeScopes procedureScope none k).flatten, ¬ Applicable R M stmt c h) :
      StepBy (.run (.simple id stmt :: ns) k) [⟨id, .raised⟩] .escaped
  | return {id stmt ns k} (hkind : stmt.kind = .return) :
      StepBy (.run (.simple id stmt :: ns) k) [⟨id, .completed⟩] .returned
  | jump {id stmt ns k c} (hkind : isJump stmt.kind = true)
      (hjump : jump (R.label stmt) (decide (stmt.kind = .iterate)) none k = some c) :
      StepBy (.run (.simple id stmt :: ns) k) [⟨id, .completed⟩] c
  | compound {id label text body ns k} :
      StepBy (.run (.compound id label text body :: ns) k) [⟨id, .completed⟩]
        (.run body (.block label (scopeHandlersOf body) ns :: k))
  | ifArm {id arms arm ns k} (htake : CanTakeBy R.truth arms arm) :
      StepBy (.run (.ifRegion id arms :: ns) k) [⟨id, .completed⟩, ⟨arm.header.armId, .completed⟩]
        (.run (arm.body ++ ns) k)
  | ifNoMatch {id arms ns k} (hskip : CanSkipBy R.truth arms) :
      StepBy (.run (.ifRegion id arms :: ns) k) [⟨id, .completed⟩] (.run ns k)
  | loop {id region body ns k} :
      StepBy (.run (.loop id region body :: ns) k) [] (.header ⟨id, region, body⟩ false ns k)
  | loopBody {l again rest k} :
      StepBy (.header l again rest k) [⟨l.id, .completed⟩] (.run l.body (.loop l rest :: k))
  | loopExit {l again rest k} (hkind : l.region.loopKind ≠ .loop)
      (hrepeat : l.region.loopKind = .repeat → again = true) :
      StepBy (.header l again rest k) [⟨l.id, .completed⟩] (.run rest k)

/-- One step under the builder's reading. -/
abbrev Step : Config → List Visit → Config → Prop := StepBy Reading.builder M procedureScope

/-- A run, with the nodes visited in order. -/
abbrev StepsBy : Config → List Visit → Config → Prop := Run (StepBy R M procedureScope)

end

/-- The start of an execution. -/
def start (ast : ProcedureAst) : Config := .run ast.body []

/-- The handlers of the procedure body. -/
def procedureScope (ast : ProcedureAst) : List Handler := scopeHandlersOf ast.body

end AtlasDb.Semantics
