import AtlasDb.Parsing.Ast
import AtlasDb.Parsing.Lexer

/-!
# Bindings of simple statements

`parsing/adapters/lark_sqlpl`: the extractors of `binding_mixin.py`, the branches of
`region_mixin.py: _parse_region` for statements without substructure, and the names for which
`symbol_mixin.py: _build_state_access_facts` adds a `DEF` fact. Arity and residual text of a
`SelectIntoBinding`, the structure of a `MERGE` and findings are left out.
-/

namespace AtlasDb.Parsing

open Core

/-! ## Tokens -/

/-- `token.value.strip('"').upper()` -/
def Token.name (t : Token) : String :=
  String.ofList (Text.upper (Text.stripBy (· = '"') t.value.toList))

theorem upperString_name (t : Token) : Text.upperString t.name = t.name := by
  rw [Text.upperString, Token.name, String.toList_ofList, Text.upper_upper]

/-- `token.kind in {TokenKind.WORD, TokenKind.QUOTED_IDENTIFIER}` -/
def Token.isIdentifier (t : Token) : Bool := t.kind = .word || t.kind = .quotedIdentifier

/-- `_trim_semicolon`. -/
def trimSemicolon (tokens : List Token) : List Token :=
  (tokens.reverse.dropWhile (·.value = ";")).reverse

/-- `source[start:end]` -/
def sliceText (source : String) (start stop : Nat) : String :=
  String.ofList ((source.toList.take stop).drop start)

/-- `_text_for_tokens`. -/
def textForTokens (source : String) (tokens : List Token) : String :=
  match tokens.head?, tokens.getLast? with
  | some first, some last =>
    String.ofList (Text.strip
      (sliceText source first.offset (last.offset + last.value.length)).toList)
  | _, _ => ""

/-- `_split_top_level`: the group being read comes first. -/
def splitTopLevel (separator : String) : Int → List Token → List (List Token)
  | _, [] => [[]]
  | depth, t :: ts =>
    let depth := if t.value = "(" then depth + 1 else if t.value = ")" then depth - 1 else depth
    let groups := splitTopLevel separator depth ts
    if t.value = separator ∧ depth = 0 then [] :: groups
    else (t :: groups.headD []) :: groups.tail

/-! ## Extractors -/

/-- `_assignment_binding`. -/
def assignmentBinding (source : String) (statement : List Token) : Option AssignmentBinding :=
  match statement.findIdx? fun t => t.value = "=" ∨ t.value = ":=" with
  | none => none
  | some equals =>
    if equals < 2 then none
    else statement[1]?.map fun target =>
      ⟨target.name, textForTokens source (trimSemicolon (statement.drop (equals + 1)))⟩

/-- `_prepare_binding`. -/
def prepareBinding (source : String) (statement : List Token) : Option DynamicPrepareBinding :=
  if statement.length < 4 ∨ statement.head?.map Token.upper ≠ some "PREPARE" then none
  else
    match statement.findIdx? (·.upper = "FROM") with
    | none => none
    | some index =>
      if index ≤ 1 ∨ statement.length ≤ index + 1 then none
      else statement[1]?.map fun name =>
        ⟨name.name, textForTokens source (trimSemicolon (statement.drop (index + 1)))⟩

/-- The names of the identifiers among the tokens. -/
def identifierNames (tokens : List Token) : List String :=
  (tokens.filter Token.isIdentifier).map Token.name

/-- `statement[first:last]` -/
def between (tokens : List Token) (first last : Nat) : List Token := (tokens.take last).drop first

/-- The names between the `INTO` of an `EXECUTE` and its `USING`. -/
def executeTargets (trimmed : List Token) : List String :=
  match trimmed.findIdx? (·.upper = "INTO") with
  | none => []
  | some into =>
    let last := match trimmed.findIdx? (·.upper = "USING") with
      | some u => if into < u then u else trimmed.length
      | none => trimmed.length
    identifierNames (between trimmed (into + 1) last)

/-- `_execute_binding`. -/
def executeBinding (source : String) (statement : List Token) : Option DynamicExecuteBinding :=
  if statement.length < 2 ∨ statement.head?.map Token.upper ≠ some "EXECUTE" then none
  else
    let trimmed := trimSemicolon statement
    if 3 ≤ trimmed.length ∧ trimmed[1]?.map Token.upper = some "IMMEDIATE" then
      some { executionKind := .immediate
             sourceExpression := some (textForTokens source (trimmed.drop 2)) }
    else
      let expressions := match trimmed.findIdx? (·.upper = "USING") with
        | none => []
        | some u => ((splitTopLevel "," 0 (trimmed.drop (u + 1))).filter (· ≠ [])).map
            (textForTokens source)
      trimmed[1]?.map fun name =>
        { executionKind := .prepared
          statementName := some name.name
          intoTargetNames := executeTargets trimmed
          usingExpressions := expressions }

/-- `_fetch_binding`. -/
def fetchBinding (statement : List Token) : Option FetchBinding :=
  if statement.length < 4 then none
  else
    match statement.findIdx? (·.upper = "INTO") with
    | none => none
    | some into =>
      if into ≤ 1 then none
      else
        let targets := identifierNames (statement.drop (into + 1))
        if targets = [] then none else statement[1]?.map fun cursor => ⟨cursor.name, targets⟩

/-- The loop of `_select_into_binding`: the positions of `INTO` and of the `FROM` or `VALUES` after
it, outside parentheses. -/
def selectIntoIndices (depth : Int) (into : Option Nat) (index : Nat) :
    List Token → Option Nat × Option Nat
  | [] => (into, none)
  | t :: ts =>
    if t.value = "(" then selectIntoIndices (depth + 1) into (index + 1) ts
    else if t.value = ")" then selectIntoIndices (depth - 1) into (index + 1) ts
    else if depth = 0 ∧ t.upper = "INTO" ∧ into = none then
      selectIntoIndices depth (some index) (index + 1) ts
    else if depth = 0 ∧ (t.upper = "FROM" ∨ t.upper = "VALUES") ∧ into ≠ none then
      (into, some index)
    else selectIntoIndices depth into (index + 1) ts

/-- The target names of `_select_into_binding`. -/
def selectIntoTargets (statement : List Token) : Option (List String) :=
  match selectIntoIndices 0 none 0 statement with
  | (some into, some from?) =>
    if from? ≤ into + 1 then none
    else
      let groups := splitTopLevel "," 0 (between statement (into + 1) from?)
      let targets := (groups.filterMap List.head?).filter Token.isIdentifier
      if targets = [] then none else some (targets.map Token.name)
  | _ => none

/-! ## Simple statements -/

/-- `_effective_first`. -/
def effectiveFirst (statement : List Token) : Option String :=
  if 3 ≤ statement.length ∧ statement[1]?.map Token.value = some ":" then
    statement[2]?.map Token.upper
  else statement.head?.map Token.upper

/-- The kinds that the first word alone decides. -/
def kindOfFirst : String → Option StatementKind
  | "SET" => some .set
  | "SIGNAL" => some .signal
  | "RESIGNAL" => some .resignal
  | "CALL" => some .call
  | "INSERT" => some .dml
  | "UPDATE" => some .dml
  | "DELETE" => some .dml
  | "MERGE" => some .dml
  | "COMMIT" => some .commit
  | "ROLLBACK" => some .rollback
  | "SAVEPOINT" => some .savepoint
  | "RETURN" => some .return
  | "OPEN" => some .openCursor
  | "FETCH" => some .fetchCursor
  | "CLOSE" => some .closeCursor
  | "LEAVE" => some .leave
  | "ITERATE" => some .iterate
  | "PREPARE" => some .prepare
  | _ => none

/-- The kind `_parse_region` gives a statement without substructure. -/
def simpleKind (first : String) (statement : List Token) : StatementKind :=
  match kindOfFirst first with
  | some kind => kind
  | none =>
    if first = "DECLARE" then
      if statement.any (·.upper = "CURSOR") then .declareCursor else .declareVariable
    else if first = "GET" ∧ statement[1]?.map Token.upper = some "DIAGNOSTICS" then .getDiagnostics
    else if first = "EXECUTE" then
      if statement[1]?.map Token.upper = some "IMMEDIATE" then .executeImmediate else .execute
    else if first = "SELECT" ∨ first = "WITH" ∨ first = "VALUES" then
      if (selectIntoTargets statement).isSome then .selectInto else .opaqueRegion
    else .opaqueRegion

/-- The branches of `_parse_region` for a statement without substructure. -/
def parseSimple (source : String) (statement : List Token) : Statement :=
  let first := (effectiveFirst statement).getD ""
  let start := (statement.head?.map Token.offset).getD 0
  let stop := (statement.getLast?.map fun t => t.offset + t.value.length).getD 0
  { kind := simpleKind first statement
    text := sliceText source start stop
    startOffset := start
    assignment := if first = "SET" then assignmentBinding source statement else none
    selectIntoTargets :=
      if first = "SELECT" ∨ first = "WITH" ∨ first = "VALUES" then selectIntoTargets statement
      else none
    fetch := if first = "FETCH" then fetchBinding statement else none
    prepare := if first = "PREPARE" then prepareBinding source statement else none
    execute := if first = "EXECUTE" then executeBinding source statement else none }

/-- The symbols with a `DEF` fact at the node of the statement. -/
def definedSymbols (stmt : Statement) : List String :=
  stmt.assignment.toList.map AssignmentBinding.targetName ++
    stmt.fetch.toList.flatMap FetchBinding.targetNames ++ stmt.selectIntoTargets.getD [] ++
    stmt.execute.toList.flatMap DynamicExecuteBinding.intoTargetNames

/-- The symbols of the `DEF` facts of a text that is one statement. -/
def definedBy (text : String) : List String := definedSymbols (parseSimple text (scan text).tokens)

example : definedBy "SET A = 1, B = 2;" = ["A"] := by decide +kernel
example : definedBy "SELECT F(1, 2), X INTO A, B FROM T;" = ["A", "B"] := by decide +kernel

end AtlasDb.Parsing
