import AtlasDb.Analysis.Slicing
import AtlasDb.Parsing.Definitions
import AtlasDb.Parsing.Rescan

/-!
# Symbols never assigned or never consumed

`symbol_mixin.py: _build_state_access_facts`, `_build_declared_symbol_types` and
`analysis/symbol_usage.py: SymbolUsageAnalyzer`. Against them stand procedures as they are written:
their statements and conditions as tokens of the source, which of the tokens read a value, and the
declaration each of them refers to. A symbol is found unused exactly when no text that is searched
for uses mentions it, and the searched texts are few (`SqlStatement.searched`).
-/

namespace AtlasDb.Analysis.SymbolUsage

open Core Parsing Slicing

/-! ## Facts -/

/-- `SelectIntoBinding.residual_query_text`: the query without the part from `INTO` to `FROM`. -/
def residualQueryText (source : String) (statement : List Token) : Option String :=
  match selectIntoTargets statement, selectIntoIndices 0 none 0 statement with
  | some _, (some into, some from?) =>
    match statement.head?, statement[into]?, statement[from?]?, statement.getLast? with
    | some first, some removed, some kept, some last =>
      some (sliceText source first.offset removed.offset ++
        sliceText source kept.offset (last.offset + last.value.length))
    | _, _, _, _ => none
  | _, _ => none

/-- The fields of an `AstNode` the facts are built from: those of a statement, or the condition of
an arm or a loop. -/
structure AccessNode where
  nodeId : NodeRef
  statement : Option Statement := none
  residualQueryText : Option String := none
  conditionText : Option String := none

namespace AccessNode

/-- The texts `_build_state_access_facts` searches for uses at a node. -/
def useTexts (n : AccessNode) : List String :=
  (n.statement.toList.flatMap fun s => s.assignment.toList.map AssignmentBinding.expressionText) ++
    n.residualQueryText.toList ++ n.conditionText.toList ++
    (n.statement.toList.flatMap fun s =>
      s.prepare.toList.map DynamicPrepareBinding.sourceExpression) ++
    n.statement.toList.flatMap fun s => s.execute.toList.flatMap fun e =>
      e.sourceExpression.toList ++ e.usingExpressions

/-- The symbols it finds assigned there. -/
def definedNames (n : AccessNode) : List String := n.statement.toList.flatMap definedSymbols

def isVariableDeclaration (n : AccessNode) : Bool :=
  n.statement.any fun s => s.kind = .declareVariable

def text (n : AccessNode) : String := (n.statement.map Statement.text).getD ""

end AccessNode

/-- `symbol_names` of `_build_state_access_facts`. -/
def symbolNames (parameters : List ProcedureParameter) (nodes : List AccessNode) : List String :=
  parameters.map (fun p => Text.upperString p.name) ++
    (nodes.filter AccessNode.isVariableDeclaration).filterMap fun n =>
      (scan n.text).tokens[1]?.map Token.name

/-- `_symbol_uses`. -/
def symbolUses (text : String) (symbols : List String) : List String :=
  ((scan text).tokens.map strippedUpper).filter (looksLikeSymbol symbols)

/-- `_build_state_access_facts`, in the order of the nodes. -/
def buildStateAccessFacts (parameters : List ProcedureParameter) (nodes : List AccessNode) :
    List StateAccessFact :=
  nodes.flatMap fun n =>
    n.definedNames.map (fun symbol => ⟨symbol, .define, n.nodeId⟩) ++
      n.useTexts.flatMap fun text =>
        (symbolUses text (symbolNames parameters nodes)).map fun symbol => ⟨symbol, .use, n.nodeId⟩

/-! ## Declarations -/

inductive SymbolKind where
  | procedureParameter
  | localVariable
deriving DecidableEq

structure DeclaredSymbolType where
  symbolName : String
  symbolKind : SymbolKind
  defaultExpression : Option String := none
  sourceRef : NodeRef
deriving DecidableEq

/-- The body of the loop over the declarations in `_build_declared_symbol_types`. -/
def declaredSymbolType (n : AccessNode) : Option DeclaredSymbolType :=
  let tokens := (scan n.text).tokens.filter (·.value ≠ ";")
  if !n.isVariableDeclaration ∨ tokens.length < 3 then none
  else
    let index := ((tokens.drop 2).findIdx? (·.upper = "DEFAULT")).map (· + 2)
    let typeTokens := match index with
      | some index => between tokens 2 index
      | none => tokens.drop 2
    if typeTokens = [] then none
    else
      let default := index.bind fun index =>
        if index + 1 < tokens.length
          then some (textForTokens n.text (tokens.drop (index + 1))) else none
      tokens[1]?.map fun name => ⟨name.name, .localVariable, default, n.nodeId⟩

/-- `_build_declared_symbol_types`. -/
def buildDeclaredSymbolTypes (parameters : List ProcedureParameter) (nodes : List AccessNode) :
    List DeclaredSymbolType :=
  parameters.map (fun p => ⟨p.name, .procedureParameter, none, "parameter:" ++ p.name⟩) ++
    nodes.filterMap declaredSymbolType

/-! ## The analyzer -/

inductive FindingCode where
  | declaredSymbolNeverAssigned
  | assignedSymbolNeverConsumed
deriving DecidableEq

structure SemanticFinding where
  code : FindingCode
  symbol : String
  evidenceNodeRefs : List NodeRef
deriving DecidableEq

/-- The nodes with a fact of this kind about the symbol. -/
def refsOfSymbol (kind : StateAccessKind) (facts : List StateAccessFact) (symbol : String) :
    List NodeRef :=
  (facts.filter fun f => f.accessKind = kind && Text.upperString f.symbolName = symbol).map
    StateAccessFact.sourceNodeRef

/-- The body of the loop of `analyze`. -/
def findingOf (nodes : List NodeRef) (facts : List StateAccessFact)
    (declared : DeclaredSymbolType) :
    Option SemanticFinding :=
  let symbol := Text.upperString declared.symbolName
  let assigned := refsOfSymbol .define facts symbol ++
    if declared.defaultExpression.isSome then [declared.sourceRef] else []
  let used := refsOfSymbol .use facts symbol
  if declared.symbolKind ≠ .localVariable then none
  else if assigned = [] then
    some ⟨.declaredSymbolNeverAssigned, symbol, [declared.sourceRef].filter (· ∈ nodes)⟩
  else if used = [] then
    some ⟨.assignedSymbolNeverConsumed, symbol,
      (declared.sourceRef :: assigned.mergeSort (· ≤ ·)).eraseDups.filter (· ∈ nodes)⟩
  else none

/-- `SymbolUsageAnalyzer.analyze`, in the order of the declarations. -/
def analyze (parameters : List ProcedureParameter) (nodes : List AccessNode) :
    List SemanticFinding :=
  (buildDeclaredSymbolTypes parameters nodes).filterMap
    (findingOf (nodes.map AccessNode.nodeId) (buildStateAccessFacts parameters nodes))

/-! ## What is searched and recorded -/

end AtlasDb.Analysis.SymbolUsage

namespace AtlasDb.Parsing.SqlStatement

/-- What follows the first equals sign. -/
def afterEquals (tokens : List Token) : List Token :=
  match tokens.findIdx? fun t => t.value = "=" ∨ t.value = ":=" with
  | none => []
  | some equals => if equals < 2 then [] else trimSemicolon (tokens.drop (equals + 1))

/-- A query without the part from `INTO` to `FROM`. -/
def withoutTargets (tokens : List Token) : List Token :=
  match selectIntoTargets tokens, selectIntoIndices 0 none 0 tokens with
  | some _, (some into, some from?) => tokens.take into ++ tokens.drop from?
  | _, _ => []

/-- The text of a `PREPARE`. -/
def preparedTokens (tokens : List Token) : List Token :=
  if tokens.length < 4 ∨ tokens.head?.map Token.upper ≠ some "PREPARE" then []
  else
    match tokens.findIdx? (·.upper = "FROM") with
    | none => []
    | some index =>
      if index ≤ 1 ∨ tokens.length ≤ index + 1 then [] else trimSemicolon (tokens.drop (index + 1))

/-- The text of an `EXECUTE IMMEDIATE`, or the values after the `USING` of an `EXECUTE`. -/
def executedTokens (tokens : List Token) : List Token :=
  if tokens.length < 2 ∨ tokens.head?.map Token.upper ≠ some "EXECUTE" then []
  else
    let trimmed := trimSemicolon tokens
    if 3 ≤ trimmed.length ∧ trimmed[1]?.map Token.upper = some "IMMEDIATE" then trimmed.drop 2
    else
      match trimmed.findIdx? (·.upper = "USING") with
      | none => []
      | some u => (splitTopLevel "," 0 (trimmed.drop (u + 1))).flatten

/-- The tokens of a statement that are searched for uses: what is assigned, a `SELECT INTO` but for
its targets, the source of a `PREPARE` or an `EXECUTE`, and nothing of any other statement. -/
def searched (s : SqlStatement) : List Token :=
  match effectiveFirst s.tokens with
  | some "SET" => afterEquals s.tokens
  | some "SELECT" => withoutTargets s.tokens
  | some "WITH" => withoutTargets s.tokens
  | some "VALUES" => withoutTargets s.tokens
  | some "PREPARE" => preparedTokens s.tokens
  | some "EXECUTE" => executedTokens s.tokens
  | _ => []

/-- The names recorded as assigned by a statement: the second token of a `SET`, the targets before
the `FROM` of a `SELECT INTO`, the identifiers after the `INTO` of a `FETCH` or an `EXECUTE`, and
nothing of any other statement. -/
def recorded (s : SqlStatement) : List String :=
  match s.form with
  | .set _ _ => s.tokens[1]?.toList.map Token.name
  | .setRow _ _ _ _ _ _ _ => s.tokens[1]?.toList.map Token.name
  | .setRegister _ _ rest =>
    if ∃ t ∈ rest, isEquals t then s.tokens[1]?.toList.map Token.name else []
  | .selectInto _ _ _ targets _ _ _ _ _ => targets.symbols
  | .valuesInto _ _ _ _ _ _ => []
  | .fetch _ _ _ _ targets _ => identifierNames targets.tokens
  | .execute _ _ into _ _ =>
    if s.label.isSome then [] else into.toList.flatMap fun i => identifierNames i.2.tokens
  | .executeImmediate _ _ _ _ _ => []
  | .getDiagnostics _ _ _ _ => []
  | .call _ _ _ _ => []
  | .other _ _ _ _ => []

theorem recorded_second {source : String} {s : SqlStatement} {name : String}
    (hsecond : s.tokens[1]?.map Token.name = some name)
    (hdefined : definedSymbols (parseSimple source s.tokens) = [name]) :
    definedSymbols (parseSimple source s.tokens) = s.tokens[1]?.toList.map Token.name := by
  obtain ⟨t, ht, rfl⟩ := Option.map_eq_some_iff.mp hsecond
  rw [hdefined, ht]
  rfl

/-- The definitions read from a statement are those it records. -/
theorem definedSymbols_eq_recorded (source : String) (s : SqlStatement) :
    definedSymbols (parseSimple source s.tokens) = s.recorded := by
  unfold recorded
  split
  · next kw assignments hform =>
      have htokens : s.form.tokens = kw.token :: assignments.first.target.root.token ::
          (assignments.first.target.access ++ assignments.first.equals ::
            (assignments.first.expression ++
              assignments.more.flatMap fun a => a.1.token :: a.2.tokens)) := by
        simp [hform, SqlForm.tokens, Assignments.tokens, Assignment.tokens, Target.tokens]
      obtain ⟨name, hsecond, hdefined⟩ := definedSymbols_equals htokens
        assignments.first.target.root.not_isEquals
        ⟨assignments.first.equals, by simp, assignments.first.sign⟩
      exact recorded_second hsecond hdefined
  · next kw opening targets closing equals sign row hform =>
      have htokens : s.form.tokens =
          kw.token :: opening.token :: (targets.tokens ++ closing.token :: equals :: row) := by
        rw [hform]
        rfl
      obtain ⟨name, hsecond, hdefined⟩ := definedSymbols_equals htokens
        (by simp [isEquals, opening.value_eq]) ⟨equals, by simp, sign⟩
      exact recorded_second hsecond hdefined
  · next kw register rest hform =>
      have htokens : s.form.tokens = kw.token :: register.token :: rest := by
        rw [hform]
        rfl
      split
      · next hrest =>
          obtain ⟨name, hsecond, hdefined⟩ :=
            definedSymbols_equals htokens register.not_isEquals hrest
          exact recorded_second hsecond hdefined
      · next hrest =>
          refine definedSymbols_no_equals htokens fun t ht => ?_
          rcases List.mem_cons.mp ht with rfl | ht
          · exact register.not_isEquals
          · exact fun hequals => hrest ⟨t, ht, hequals⟩
  · next select query into targets from_ rest first second flat hform =>
      have htokens : s.form.tokens = (select :: query) ++ into.token ::
          (targets.tokens ++ from_.token :: rest) := by rw [hform]; rfl
      have hfirst : effectiveFirst s.tokens = some select.upper :=
        effectiveFirst_of_tokens htokens rfl
      refine definedSymbols_selectInto htokens flat ?_
      rcases first with first | first
      · exact .inl (by rw [hfirst, first])
      · exact .inr (.inl (by rw [hfirst, first]))
  · next values row into targets second flat hform =>
      have htokens : s.form.tokens = (values.token :: row) ++ into.token :: targets.tokens := by
        rw [hform]
        rfl
      have hflat : Flat (fun t => t.upper ≠ "INTO") 0 (values.token :: row) :=
        .cons ⟨values.value_ne (by decide), values.value_ne (by decide)⟩ (by simp [values.upper_eq])
          flat
      exact definedSymbols_valuesInto htokens hflat
        (effectiveFirst_of_tokens htokens values.upper_eq)
  · next fetch cursor more into targets cursorOnly hform =>
      have htokens : s.form.tokens = fetch.token :: cursor.token ::
          (more ++ into.token :: targets.tokens) := by rw [hform]; rfl
      exact definedSymbols_fetchInto htokens cursorOnly
  · next execute name into using_ plain hform =>
      cases into with
      | none =>
        have htokens : s.form.tokens = execute.token :: name.token ::
            using_.toList.flatMap fun u => u.1.token :: u.2 := by rw [hform]; rfl
        rw [definedSymbols_executeUsing htokens plain]
        simp
      | some i =>
        have htokens : s.form.tokens = execute.token :: name.token ::
            (i.1.token :: i.2.tokens ++ using_.toList.flatMap fun u => u.1.token :: u.2) := by
          simp [hform, SqlForm.tokens]
        cases hlabel : s.label with
        | some label =>
          rw [definedSymbols_labelled_execute htokens hlabel]
          rfl
        | none =>
          rw [definedSymbols_executeInto htokens hlabel plain]
          simp
  · next execute immediate text nonempty plain hform =>
      have htokens : s.form.tokens = execute.token :: immediate.token :: text := by rw [hform]; rfl
      exact definedSymbols_immediate htokens nonempty plain
  · next get diagnostics area assignments hform =>
      have htokens : s.form.tokens = get.token :: diagnostics.token ::
        (area ++ assignments.tokens) := by
        rw [hform]
        rfl
      exact definedSymbols_other (effectiveFirst_of_tokens htokens get.upper_eq) (by decide)
  · next call routine rest arguments hform =>
      have htokens : s.form.tokens = call.token :: routine.token ::
          (rest ++ arguments.flatMap Argument.tokens) := by rw [hform]; rfl
      exact definedSymbols_other (effectiveFirst_of_tokens htokens call.upper_eq) (by decide)
  · next first rest second plain hform =>
      have htokens : s.form.tokens = first :: rest := by rw [hform]; rfl
      exact definedSymbols_other (effectiveFirst_of_tokens htokens rfl) plain

end AtlasDb.Parsing.SqlStatement

namespace AtlasDb.Analysis.SymbolUsage

open Core Parsing Slicing

/-! ## The names in the searched texts -/

/-- The names `_symbol_uses` compares with the symbols. -/
def textNames (text : String) : List String := (scan text).tokens.map strippedUpper

theorem Rescans.textNames {u : List Char} {ts : List Token} (h : Rescans u ts) :
    textNames (String.ofList u) = ts.map strippedUpper := by
  have hbare := congrArg (List.map strippedUpper) h.scan
  rwa [List.map_map, List.map_map] at hbare

theorem textNames_textForTokens {source : String} {tokens : List Token} (h : Within source tokens) :
    textNames (textForTokens source tokens) = tokens.map strippedUpper := by
  have hnames := Rescans.textNames h.textForTokens
  rwa [String.ofList_toList] at hnames

theorem isPrefix_trimSemicolon (tokens : List Token) : trimSemicolon tokens <+: tokens := by
  rw [← List.reverse_suffix, trimSemicolon, List.reverse_reverse]
  exact List.dropWhile_suffix _

/-- The node of a statement. -/
def statementNode (source : String) (ref : NodeRef) (tokens : List Token) : AccessNode where
  nodeId := ref
  statement := some (parseSimple source tokens)
  residualQueryText :=
    if effectiveFirst tokens = some "SELECT" ∨ effectiveFirst tokens = some "WITH" ∨
      effectiveFirst tokens = some "VALUES" then residualQueryText source tokens else none

section Searched

variable {source : String} {ref : NodeRef} {tokens : List Token}

theorem names_afterEquals (h : Within source tokens) :
    ((assignmentBinding source tokens).toList.map
      AssignmentBinding.expressionText).flatMap textNames =
      (SqlStatement.afterEquals tokens).map strippedUpper := by
  unfold assignmentBinding SqlStatement.afterEquals
  cases hindex : tokens.findIdx? fun t => decide (t.value = "=" ∨ t.value = ":=") with
  | none => rfl
  | some equals =>
    dsimp only
    split
    · rfl
    next hle =>
    have hlength : equals < tokens.length := (List.findIdx?_eq_some_iff_getElem.mp hindex).1
    obtain ⟨target, htarget⟩ : ∃ target, tokens[1]? = some target :=
      ⟨_, List.getElem?_eq_getElem (by omega)⟩
    have hpart : trimSemicolon (tokens.drop (equals + 1)) <:+: tokens :=
      (isPrefix_trimSemicolon _).isInfix.trans (List.drop_suffix _ _).isInfix
    rw [htarget]
    simp [textNames_textForTokens (h.isInfix hpart)]

theorem names_preparedTokens (h : Within source tokens) :
    ((prepareBinding source tokens).toList.map
      DynamicPrepareBinding.sourceExpression).flatMap textNames =
      (SqlStatement.preparedTokens tokens).map strippedUpper := by
  unfold prepareBinding SqlStatement.preparedTokens
  split
  · rfl
  next hshort =>
  cases hindex : tokens.findIdx? fun t => decide (t.upper = "FROM") with
  | none => rfl
  | some index =>
    dsimp only
    split
    · rfl
    next hle =>
    obtain ⟨name, hname⟩ : ∃ name, tokens[1]? = some name :=
      ⟨_, List.getElem?_eq_getElem (by omega)⟩
    have hpart : trimSemicolon (tokens.drop (index + 1)) <:+: tokens :=
      (isPrefix_trimSemicolon _).isInfix.trans (List.drop_suffix _ _).isInfix
    rw [hname]
    simp [textNames_textForTokens (h.isInfix hpart)]

theorem isInfix_splitTopLevel (separator : String) (depth : Int) (tokens : List Token) :
    (splitTopLevel separator depth tokens).headD [] <+: tokens ∧
      ∀ group ∈ splitTopLevel separator depth tokens, group <:+: tokens := by
  induction tokens generalizing depth with
  | nil => simp [splitTopLevel]
  | cons t tokens ih =>
    simp only [splitTopLevel]
    generalize (if t.value = "(" then depth + 1 else if t.value = ")" then depth - 1 else depth) = d
    obtain ⟨hhead, hall⟩ := ih d
    split
    · refine ⟨ List.nil_prefix, fun group hgroup => ?_⟩
      rcases List.mem_cons.mp hgroup with rfl | hgroup
      · exact List.nil_infix
      · exact (hall group hgroup).trans (List.suffix_cons t tokens).isInfix
    · have hfirst : t :: (splitTopLevel separator d tokens).headD [] <+: t :: tokens :=
        (List.prefix_cons_inj t).mpr hhead
      refine ⟨hfirst, fun group hgroup => ?_⟩
      rcases List.mem_cons.mp hgroup with rfl | hgroup
      · exact hfirst.isInfix
      · exact (hall group (List.mem_of_mem_tail hgroup)).trans (List.suffix_cons t tokens).isInfix

theorem names_groups {groups : List (List Token)} (h : ∀ group ∈ groups, Within source group) :
    ((groups.filter (· ≠ [])).map (textForTokens source)).flatMap textNames =
      groups.flatten.map strippedUpper := by
  induction groups with
  | nil => rfl
  | cons group groups ih =>
    have hgroup := textNames_textForTokens (h group (by simp))
    have hrest := ih fun g hg => h g (by simp [hg])
    by_cases hempty : group = []
    · subst hempty
      simpa using hrest
    · rw [List.filter_cons_of_pos (by simp [hempty]), List.map_cons, List.flatMap_cons, hgroup,
        hrest, List.flatten_cons, List.map_append]

/-- The names an `EXECUTE` is searched for. -/
theorem names_executedTokens (h : Within source tokens) :
    ((executeBinding source tokens).toList.flatMap fun e =>
        e.sourceExpression.toList ++ e.usingExpressions).flatMap textNames =
      (SqlStatement.executedTokens tokens).map strippedUpper := by
  have htrim : trimSemicolon tokens <:+: tokens := (isPrefix_trimSemicolon tokens).isInfix
  unfold executeBinding SqlStatement.executedTokens
  split
  · rfl
  next hshort =>
  dsimp only
  split
  · have hpart : (trimSemicolon tokens).drop 2 <:+: tokens :=
      (List.drop_suffix _ _).isInfix.trans htrim
    simp [textNames_textForTokens (h.isInfix hpart)]
  next himmediate =>
  cases hindex : (trimSemicolon tokens).findIdx? fun t => decide (t.upper = "USING") with
  | none =>
    cases hname : (trimSemicolon tokens)[1]? with
    | none => rfl
    | some name => simp
  | some u =>
    obtain ⟨hlength, husing, -⟩ := List.findIdx?_eq_some_iff_getElem.mp hindex
    obtain ⟨name, hname⟩ : ∃ name, (trimSemicolon tokens)[1]? = some name := by
      refine ⟨_, List.getElem?_eq_getElem (?_ : 1 < (trimSemicolon tokens).length)⟩
      by_contra hone
      obtain rfl : u = 0 := by omega
      -- The only token would be the `EXECUTE`.
      have hhead : tokens.head? = some ((trimSemicolon tokens)[0]) := by
        rw [List.head?_eq_getElem?, List.getElem?_eq_getElem (by omega),
          (isPrefix_trimSemicolon tokens).getElem hlength]
      rw [hhead] at hshort
      simp only [decide_eq_true_eq] at husing
      exact hshort (.inr (by simp [husing]))
    have hpart : (trimSemicolon tokens).drop (u + 1) <:+: tokens :=
      (List.drop_suffix _ _).isInfix.trans htrim
    have hgroups : ∀ group ∈ splitTopLevel "," 0 ((trimSemicolon tokens).drop (u + 1)),
        Within source group := fun group hgroup =>
      h.isInfix (((isInfix_splitTopLevel _ _ _).2 group hgroup).trans hpart)
    rw [hname]
    simpa using names_groups hgroups

theorem drop_eq_cons {i : Nat} {t : Token} (h : tokens[i]? = some t) :
    tokens.drop i = t :: tokens.drop (i + 1) := by
  obtain ⟨hlt, rfl⟩ := List.getElem?_eq_some_iff.mp h
  exact List.drop_eq_getElem_cons hlt

/-- The marks found are an `INTO` and the `FROM` or `VALUES` behind it. -/
theorem selectIntoIndices_spec {depth : Int} {into : Option Nat} {index i f : Nat}
    (h : selectIntoIndices depth into index tokens = (some i, some f)) :
    (into = some i ∨ index ≤ i ∧ i < f ∧ ∃ t, tokens[i - index]? = some t ∧ t.upper = "INTO") ∧
      index ≤ f ∧ ∃ t, tokens[f - index]? = some t ∧ (t.upper = "FROM" ∨ t.upper = "VALUES") := by
  induction tokens generalizing depth into index with
  | nil => simp [selectIntoIndices] at h
  | cons t tokens ih =>
    have hshift (k : Nat) (hk : index + 1 ≤ k) :
        (t :: tokens)[k - index]? = tokens[k - (index + 1)]? := by
      obtain ⟨n, rfl⟩ := Nat.exists_eq_add_of_le hk
      have hn : index + 1 + n - index = n + 1 := by omega
      rw [hn, List.getElem?_cons_succ]
      congr 1
      omega
    have hlater {depth : Int} {into' : Option Nat}
        (hrest : selectIntoIndices depth into' (index + 1) tokens = (some i, some f))
        (hinto : into' = into ∨ into' = some index ∧ t.upper = "INTO") :
        (into = some i ∨ index ≤ i ∧ i < f ∧
            ∃ t', (t :: tokens)[i - index]? = some t' ∧ t'.upper = "INTO") ∧
          index ≤ f ∧ ∃ t', (t :: tokens)[f - index]? = some t' ∧
            (t'.upper = "FROM" ∨ t'.upper = "VALUES") := by
      obtain ⟨hi, hf, t', ht', hupper⟩ := ih hrest
      refine ⟨?_, by omega, t', by rw [hshift f hf]; exact ht', hupper⟩
      rcases hi with hi | ⟨hi, hlt, t', ht', hupper⟩
      · rcases hinto with rfl | ⟨rfl, hupper⟩
        · exact .inl hi
        · obtain rfl := Option.some.inj hi
          exact .inr ⟨Nat.le_refl _, by omega, t, by simp, hupper⟩
      · exact .inr ⟨by omega, hlt, t', by rw [hshift i hi]; exact ht', hupper⟩
    rw [selectIntoIndices] at h
    split at h
    · exact hlater h (.inl rfl)
    split at h
    · exact hlater h (.inl rfl)
    split at h
    · next hinto => exact hlater h (.inr ⟨rfl, hinto.2.1⟩)
    split at h
    · next hfrom =>
        obtain ⟨rfl, hf⟩ := Prod.mk.inj h
        obtain rfl := Option.some.inj hf
        exact ⟨.inl rfl, Nat.le_refl _, t, by simp, hfrom.2.1⟩
    · exact hlater h (.inl rfl)

/-- The names of a query without its targets. -/
theorem names_withoutTargets (h : Within source tokens) :
    ((residualQueryText source tokens).toList).flatMap textNames =
      (SqlStatement.withoutTargets tokens).map strippedUpper := by
  unfold residualQueryText SqlStatement.withoutTargets
  cases htargets : selectIntoTargets tokens with
  | none => rfl
  | some targets =>
    generalize hindices : selectIntoIndices 0 none 0 tokens = indices
    obtain ⟨into, from?⟩ := indices
    cases into with
    | none => rfl
    | some into =>
      cases from? with
      | none => rfl
      | some from? =>
        obtain ⟨hinto, -, kept, hkept, hfrom⟩ := selectIntoIndices_spec hindices
        rcases hinto with hinto | ⟨-, hlt, removed, hremoved, hupper⟩
        · exact nomatch hinto
        rw [Nat.sub_zero] at hkept hremoved
        obtain ⟨hlength, -⟩ := List.getElem?_eq_some_iff.mp hkept
        obtain ⟨between, hbetween⟩ : ∃ between, tokens =
            tokens.take into ++ removed :: (between ++ tokens.drop from?) := by
          refine ⟨(tokens.take from?).drop (into + 1), ?_⟩
          have hdrop := drop_eq_cons hremoved
          have hrest : (tokens.take from?).drop (into + 1) ++ tokens.drop from? =
              tokens.drop (into + 1) := by
            have hfrom? : into + 1 + (from? - (into + 1)) = from? := by omega
            have hdropped : tokens.drop from? =
                (tokens.drop (into + 1)).drop (from? - (into + 1)) := by
              rw [List.drop_drop, hfrom?]
            rw [List.drop_take, hdropped, List.take_append_drop]
          rw [hrest, ← hdrop, List.take_append_drop]
        have hdrop := drop_eq_cons hkept
        obtain ⟨first, hfirst⟩ : ∃ first, tokens.head? = some first := by
          cases tokens with
          | nil => exact nomatch hkept
          | cons t tokens => exact ⟨t, rfl⟩
        obtain ⟨last, hlast⟩ : ∃ last, tokens.getLast? = some last := by
          cases hlast : tokens.getLast? with
          | none => simp [List.getLast?_eq_none_iff.mp hlast] at hkept
          | some last => exact ⟨last, rfl⟩
        have hkeptLast : (kept :: tokens.drop (from? + 1)).getLast? = some last := by
          rw [← hdrop, List.getLast?_drop, if_neg (by omega), hlast]
        have hrescans : Rescans ((sliceText source first.offset removed.offset).toList ++
            (sliceText source kept.offset (last.offset + last.value.length)).toList)
            (tokens.take into ++ kept :: tokens.drop (from? + 1)) := by
          rw [hdrop] at hbetween
          refine Within.rescans_without (hbetween ▸ h) (hbetween ▸ hfirst) hkeptLast ?_ ?_
          · exact lettered_of_upper (hbetween ▸ h) (.inl hupper)
          · refine lettered_of_upper
              (?_ : Within source ((tokens.take into ++ removed :: between) ++
                kept :: tokens.drop (from? + 1)))
              (.inr hfrom)
            rw [List.append_assoc, List.cons_append, ← hbetween]
            exact h
        have hnames := Rescans.textNames hrescans
        rw [← hdrop, ← String.toList_append, String.ofList_toList] at hnames
        dsimp only
        rw [hfirst, hremoved, hkept, hlast]
        simpa using hnames

theorem names_statementNode {s : SqlStatement} (h : Within source s.tokens) :
    (statementNode source ref s.tokens).useTexts.flatMap textNames =
    s.searched.map strippedUpper := by
  have hassignment := names_afterEquals h
  have hquery := names_withoutTargets h
  have hprepare := names_preparedTokens h
  have hexecute := names_executedTokens h
  unfold SqlStatement.searched
  cases hfirst : effectiveFirst s.tokens with
  | none => simp [AccessNode.useTexts, statementNode, parseSimple, hfirst]
  | some first =>
    split
    · next heq =>
        obtain rfl := Option.some.inj heq
        simpa [AccessNode.useTexts, statementNode, parseSimple, hfirst] using hassignment
    case h_2 heq | h_3 heq | h_4 heq =>
      obtain rfl := Option.some.inj heq
      simpa [AccessNode.useTexts, statementNode, parseSimple, hfirst] using hquery
    · next heq =>
        obtain rfl := Option.some.inj heq
        simpa [AccessNode.useTexts, statementNode, parseSimple, hfirst] using hprepare
    · next heq =>
        obtain rfl := Option.some.inj heq
        simpa [AccessNode.useTexts, statementNode, parseSimple, hfirst] using hexecute
    · next hset hselect hwith hvalues hprep hexec =>
        simp only [Option.some.injEq, imp_false] at hset hselect hwith hvalues hprep hexec
        simp [AccessNode.useTexts, statementNode, parseSimple, hfirst, hset, hselect,
          hwith, hvalues,
          hprep, hexec]

end Searched

/-! ## Procedures as written -/

/-- The declaration of a local variable. -/
structure LocalDeclaration where
  declare : Keyword "DECLARE"
  name : Ident
  type : List Token
  default : Option (Keyword "DEFAULT" × List Token)
  terminator : Option (Mark ";")
  typed : type ≠ []
  undefaulted : ∀ t ∈ type, t.upper ≠ "DEFAULT"
  valued : ∀ d ∈ default, d.2 ≠ []
  plain : ∀ t ∈ name.token :: type ++ default.toList.flatMap Prod.snd,
    t.upper ≠ "CURSOR" ∧ t.value ≠ ";"

namespace LocalDeclaration

def symbol (d : LocalDeclaration) : String := d.name.token.name

def defaultTokens (d : LocalDeclaration) : List Token :=
  d.default.toList.flatMap fun x => x.1.token :: x.2

def tokens (d : LocalDeclaration) : List Token :=
  d.declare.token :: d.name.token :: (d.type ++ d.defaultTokens) ++
    d.terminator.toList.map Mark.token

end LocalDeclaration

/-- What a node is written as. A condition is that of an `IF` arm or a loop, or that of a `CASE` arm
with the selector of the `CASE`, if it has one. -/
inductive Content where
  | declaration (d : LocalDeclaration)
  | statement (s : SqlStatement)
  | condition (selector : Option (List Token)) (tokens : List Token)

/-- A punctuation mark that the parser puts into a condition. -/
def punctuation (mark : String) : Token := ⟨.symbol, mark, mark, 0⟩

namespace Content

def tokens : Content → List Token
  | declaration d => d.tokens
  | statement s => s.tokens
  | condition selector tokens => selector.toList.flatten ++ tokens

/-- The parts of the source it is made of. -/
def Within (source : String) : Content → Prop
  | declaration d => Parsing.Within source d.tokens
  | statement s => Parsing.Within source s.tokens
  | condition selector tokens =>
    (∀ s ∈ selector, Parsing.Within source s) ∧ Parsing.Within source tokens

/-- The tokens that are searched for uses. -/
def searched : Content → List Token
  | declaration _ => []
  | statement s => s.searched
  | condition none tokens => tokens
  | condition (some selector) tokens =>
    punctuation "(" :: (selector ++ punctuation ")" :: punctuation "=" :: punctuation "(" ::
      (tokens ++ [punctuation ")"]))

/-- The node the parser makes of it. -/
def node (source : String) (ref : NodeRef) : Content → AccessNode
  | declaration d => statementNode source ref d.tokens
  | statement s => statementNode source ref s.tokens
  | condition none tokens =>
    { nodeId := ref, conditionText := some (textForTokens source tokens) }
  | condition (some selector) tokens =>
    { nodeId := ref
      conditionText := some ("(" ++ textForTokens source selector ++ ") = (" ++
        textForTokens source tokens ++ ")") }

end Content

/-- The variables a form assigns, where it names them. -/
def writtenTokens : SqlForm → List Token
  | .set _ assignments =>
    assignments.first.target.root.token :: assignments.more.map fun a => a.2.target.root.token
  | .setRow _ _ targets _ _ _ _ => targets.all.map fun t => t.root.token
  | .setRegister _ _ _ => []
  | .selectInto _ _ _ targets _ _ _ _ _ => targets.all.map fun t => t.root.token
  | .valuesInto _ _ _ targets _ _ => targets.all.map fun t => t.root.token
  | .fetch _ _ _ _ targets _ => targets.all.map fun t => t.root.token
  | .execute _ _ into _ _ => into.toList.flatMap fun i => i.2.all.map fun t => t.root.token
  | .executeImmediate _ _ _ _ _ => []
  | .getDiagnostics _ _ _ assignments =>
    assignments.first.target.root.token :: assignments.more.map fun a => a.2.target.root.token
  | .call _ _ _ arguments => arguments.filterMap fun
      | .input _ => none
      | .output target => some target.root.token
  | .other _ _ _ _ => []

/-- A node as written, with the tokens that read a value. -/
structure WrittenNode where
  ref : NodeRef
  content : Content
  reads : List Token
  reads_mem : ∀ t ∈ reads, t ∈ content.tokens

/-- A procedure as written. `resolve` says which declaration a token refers to. -/
structure WrittenProcedure where
  source : String
  parameters : List ProcedureParameter
  nodes : List WrittenNode
  within : ∀ n ∈ nodes, n.content.Within source
  distinct : (nodes.map WrittenNode.ref).Nodup
  resolve : Token → Option NodeRef
  resolve_name : ∀ t, ∀ n ∈ nodes, resolve t = some n.ref →
    ∀ d, n.content = .declaration d → t.name = d.symbol

namespace WrittenProcedure

variable (p : WrittenProcedure)

/-- The nodes the parser makes of it. -/
def accessNodes : List AccessNode := p.nodes.map fun n => n.content.node p.source n.ref

def findings : List SemanticFinding := analyze p.parameters p.accessNodes

/-- Some statement, condition or default reads the variable declared at the node. -/
def Reads (ref : NodeRef) : Prop := ∃ n ∈ p.nodes, ∃ t ∈ n.reads, p.resolve t = some ref

/-- Some statement assigns it. -/
def Writes (ref : NodeRef) : Prop :=
  ∃ n ∈ p.nodes, ∃ s, n.content = .statement s ∧ ∃ t ∈ writtenTokens s.form, p.resolve t = some ref

/-- A finding about the variable declared at the node. -/
def Reported (code : FindingCode) (ref : NodeRef) : Prop :=
  ∃ f ∈ p.findings, f.code = code ∧ f.evidenceNodeRefs.head? = some ref

/-- Some searched token names the symbol. -/
def Mentions (symbol : String) : Prop :=
  ∃ n ∈ p.nodes, ∃ t ∈ n.content.searched, strippedUpper t = symbol

/-- Some statement is recorded to assign the symbol. -/
def Records (symbol : String) : Prop :=
  ∃ n ∈ p.nodes, ∃ s, n.content = .statement s ∧ symbol ∈ s.recorded

end WrittenProcedure

/-! ## Nodes of a written procedure -/

variable {d : LocalDeclaration}

section Content

variable {source : String} {ref : NodeRef}

theorem LocalDeclaration.effectiveFirst_tokens (d : LocalDeclaration) :
    effectiveFirst d.tokens = some "DECLARE" := by
  have hname : d.name.token.value ≠ ":" := d.name.value_ne (by decide)
  unfold effectiveFirst
  rw [if_neg fun h => hname (Option.some.inj h.2)]
  exact congrArg some d.declare.upper_eq

theorem LocalDeclaration.defaultTokens_plain (d : LocalDeclaration) :
    ∀ t ∈ d.defaultTokens, t.upper ≠ "CURSOR" ∧ t.value ≠ ";" := by
  intro t ht
  obtain ⟨x, hx, ht⟩ := List.mem_flatMap.mp ht
  rcases List.mem_cons.mp ht with rfl | ht
  · exact ⟨by simp [x.1.upper_eq], x.1.value_ne (by decide)⟩
  · exact d.plain t (List.mem_append_right _ (List.mem_flatMap.mpr ⟨x, hx, ht⟩))

theorem LocalDeclaration.filter_tokens (d : LocalDeclaration) :
    d.tokens.filter (fun t => decide (t.value ≠ ";")) =
      d.declare.token :: d.name.token :: (d.type ++ d.defaultTokens) := by
  have hend : (d.terminator.toList.map Mark.token).filter
    (fun t => decide (t.value ≠ ";")) = [] := by
    cases d.terminator with
    | none => rfl
    | some mark => simp [mark.value_eq]
  rw [LocalDeclaration.tokens, List.filter_append, hend, List.append_nil, List.filter_eq_self]
  intro t ht
  refine decide_eq_true ?_
  simp only [List.mem_cons, List.mem_append] at ht
  rcases ht with rfl | rfl | ht | ht
  · exact d.declare.value_ne (by decide)
  · exact d.name.value_ne (by decide)
  · exact (d.plain t (by simp [ht])).2
  · exact (d.defaultTokens_plain t ht).2

theorem LocalDeclaration.isVariableDeclaration_node (d : LocalDeclaration) :
    (Content.node source ref (.declaration d)).isVariableDeclaration = true := by
  have hcursor : d.tokens.any (fun t => decide (t.upper = "CURSOR")) = false := by
    refine List.any_eq_false.mpr fun t ht => ?_
    simp only [LocalDeclaration.tokens, List.mem_cons, List.mem_append, List.mem_map,
      Option.mem_toList] at ht
    rw [decide_eq_true_eq]
    rcases ht with (rfl | rfl | ht | ht) | ⟨mark, -, rfl⟩
    · simp [d.declare.upper_eq]
    · exact (d.plain _ (by simp)).1
    · exact (d.plain t (by simp [ht])).1
    · exact (d.defaultTokens_plain t ht).1
    · simp [mark.upper_eq]
  simp [Content.node, AccessNode.isVariableDeclaration, statementNode, parseSimple,
    d.effectiveFirst_tokens, simpleKind, kindOfFirst, hcursor]

theorem lexStep_punctuation {c : Char} (hspace : Text.isSpace c = false)
    (hc : c ∉ ['-', '/', '\'', '"']) (hword : isWordStart c = false) (hdigit : c.isDigit = false)
    {cs : List Char} (hpair : (c :: cs.take 1) ∉ twoCharSymbols) :
    lexStep c cs = (some (punctuation (String.singleton c)), cs) := by
  simp only [List.mem_cons, List.not_mem_nil, or_false, not_or] at hc
  obtain ⟨hdash, hslash, hquote, hdouble⟩ := hc
  rw [lexStep, if_neg (by simp [hspace]), if_neg fun h => hdash h.1, if_neg fun h => hslash h.1,
    if_neg hquote, if_neg hdouble, if_neg (by simp [hword]), if_neg (by simp [hdigit]),
    if_neg hpair]
  rfl

theorem not_twoChar {c : Char} (cs : List Char)
    (hc : twoCharSymbols.all (fun s => s.head? ≠ some c) = true) :
    (c :: cs.take 1) ∉ twoCharSymbols := by
  intro h
  have := List.all_eq_true.mp hc _ h
  simp at this

/-- The names of the condition a `CASE` arm is given. -/
theorem textNames_caseCondition {selector tokens : List Token} (hselector : Within source selector)
    (htokens : Within source tokens) :
    textNames
    ("(" ++ textForTokens source selector ++ ") = (" ++ textForTokens source tokens ++ ")") =
      (Content.searched (.condition (some selector) tokens)).map strippedUpper := by
  generalize hu : (textForTokens source selector).toList = u
  generalize hv : (textForTokens source tokens).toList = v
  have hselector := hu ▸ hselector.textForTokens
  have htokens := hv ▸ htokens.textForTokens
  have htext : ("(" ++ textForTokens source selector ++ ") = (" ++ textForTokens source tokens ++
      ")").toList = '(' :: (u ++ ')' :: ' ' :: '=' :: ' ' :: '(' :: (v ++ [')'])) := by
    simp [String.toList_append, hu, hv]
  generalize htotal : ("(" ++ textForTokens source selector ++ ") = (" ++
    textForTokens source tokens ++ ")").toList.length = total
  have hopen (cs : List Char) : lexStep '(' cs = (some (punctuation "("), cs) :=
    lexStep_punctuation (by decide) (by decide) (by decide) (by decide) (not_twoChar cs (by decide))
  have hclose (cs : List Char) : lexStep ')' cs = (some (punctuation ")"), cs) :=
    lexStep_punctuation (by decide) (by decide) (by decide) (by decide) (not_twoChar cs (by decide))
  have hequals (cs : List Char) : lexStep '=' (' ' :: cs) = (some (punctuation "="), ' ' :: cs) :=
    lexStep_punctuation (by decide) (by decide) (by decide) (by decide) (by
      rw [List.take_succ_cons, List.take_zero]
      decide)
  have hblank (cs : List Char) : lexStep ' ' cs = (none, cs) := rfl
  obtain ⟨us, hus, husbare⟩ := htokens total [')'] (by simp)
  obtain ⟨ts, hts, htsbare⟩ :=
    hselector total (')' :: ' ' :: '=' :: ' ' :: '(' :: (v ++ [')'])) (by simp)
  have hend := hus.append (.token (hclose []) (.refl []))
  have hreads := Reads.token (hopen _) (hts.append (.token (hclose _) (.skip (hblank _)
    (.token (hequals _) (.skip (hblank _) (.token (hopen _) hend))))))
  have hnames (ts ts' : List Token) (h : ts.map Token.bare = ts'.map Token.bare) :
      ts.map strippedUpper = ts'.map strippedUpper := by
    have hmap := congrArg (List.map strippedUpper) h
    rwa [List.map_map, List.map_map] at hmap
  rw [← htext] at hreads
  rw [textNames, scan, htotal]
  have hfuel : ("(" ++ textForTokens source selector ++ ") = (" ++ textForTokens source tokens ++
      ")").toList.length ≤ total := Nat.le_of_eq htotal
  rw [hnames _ _ (hreads.scanLoop_eq hfuel)]
  simp only [Content.searched, List.map_cons, List.map_append, hnames _ _ htsbare,
    hnames _ _ husbare]
  rfl

theorem names_node {content : Content} (h : content.Within source) :
    (content.node source ref).useTexts.flatMap textNames = content.searched.map strippedUpper := by
  cases content with
  | declaration d =>
    have hfirst := d.effectiveFirst_tokens
    simp [Content.node, AccessNode.useTexts, statementNode, parseSimple, hfirst, Content.searched]
  | statement s => exact names_statementNode h
  | condition selector tokens =>
    cases selector with
    | none =>
      have hnames := textNames_textForTokens h.2
      simpa [Content.node, AccessNode.useTexts, Content.searched] using hnames
    | some selector =>
      have hnames := textNames_caseCondition (h.1 selector rfl) h.2
      simpa [Content.node, AccessNode.useTexts] using hnames

theorem definedNames_node (content : Content) :
    (content.node source ref).definedNames =
      match content with
      | .statement s => s.recorded
      | _ => [] := by
  cases content with
  | declaration d =>
    have hdefined : definedSymbols (parseSimple source d.tokens) = [] :=
      definedSymbols_other d.effectiveFirst_tokens (by decide)
    simp [Content.node, AccessNode.definedNames, statementNode, hdefined]
  | statement s =>
    simp [Content.node, AccessNode.definedNames, statementNode,
      SqlStatement.definedSymbols_eq_recorded]
  | condition selector tokens =>
    cases selector with
    | none => rfl
    | some selector => rfl

theorem scan_text {tokens : List Token} (h : Within source tokens) (hne : tokens ≠ []) :
    (scan (statementNode source ref tokens).text).tokens.map Token.bare =
    tokens.map Token.bare := by
  rcases List.eq_nil_or_concat tokens with rfl | ⟨init, last, rfl⟩
  · exact absurd rfl hne
  rw [List.concat_eq_append] at h ⊢
  obtain ⟨first, hfirst⟩ : ∃ first, (init ++ [last]).head? = some first := by
    cases init with
    | nil => exact ⟨last, rfl⟩
    | cons t init => exact ⟨t, rfl⟩
  obtain ⟨x, u, w, hsource, hstart, hstop, -, -, hrescans⟩ := h.slice hfirst
  have htext : (statementNode source ref (init ++ [last])).text = String.ofList u := by
    have hslice := sliceText_toList hsource hstart hstop
    rw [← hslice, String.ofList_toList]
    simp [AccessNode.text, statementNode, parseSimple, hfirst]
  rw [htext]
  exact hrescans.scan

theorem findIdx?_bare {p : Token → Bool} (hp : ∀ t, p t.bare = p t) {ts ts' : List Token}
    (h : ts.map Token.bare = ts'.map Token.bare) : ts.findIdx? p = ts'.findIdx? p := by
  have hbare (l : List Token) : (l.map Token.bare).findIdx? p = l.findIdx? p := by
    have hcomp : p ∘ Token.bare = p := funext hp
    rw [List.findIdx?_map, hcomp]
  rw [← hbare ts, ← hbare ts', h]

theorem filter_bare {p : Token → Bool} (hp : ∀ t, p t.bare = p t) {ts ts' : List Token}
    (h : ts.map Token.bare = ts'.map Token.bare) :
    (ts.filter p).map Token.bare = (ts'.filter p).map Token.bare := by
  have hbare (l : List Token) : (l.filter p).map Token.bare = (l.map Token.bare).filter p := by
    have hcomp : p ∘ Token.bare = p := funext hp
    rw [List.filter_map, hcomp]
  rw [hbare, hbare, h]

/-- What the analysis knows of a declaration. -/
theorem declaredSymbolType_declaration (h : Within source d.tokens) :
    ∃ default, declaredSymbolType (Content.node source ref (.declaration d)) =
        some ⟨d.symbol, .localVariable, default, ref⟩ ∧ default.isSome = d.default.isSome := by
  have hscan : (scan (Content.node source ref (.declaration d)).text).tokens.map Token.bare =
      d.tokens.map Token.bare := scan_text h (by simp [LocalDeclaration.tokens])
  have hfilter := filter_bare (p := fun t => decide (t.value ≠ ";")) (fun _ => rfl) hscan
  rw [d.filter_tokens] at hfilter
  unfold declaredSymbolType
  dsimp only
  rw [d.isVariableDeclaration_node]
  generalize (scan (Content.node source ref (.declaration d)).text).tokens.filter
    (fun t => decide (t.value ≠ ";")) = ts at hfilter
  obtain ⟨declare, name, rest, rfl⟩ : ∃ declare name rest, ts = declare :: name :: rest := by
    cases ts with
    | nil => exact nomatch hfilter
    | cons declare ts =>
      cases ts with
      | nil => simp at hfilter
      | cons name rest => exact ⟨declare, name, rest, rfl⟩
  simp only [List.map_cons, List.cons.injEq] at hfilter
  obtain ⟨-, hname, hrest⟩ := hfilter
  have hsymbol : name.bare.name = d.name.token.bare.name := congrArg Token.name hname
  change name.name = d.symbol at hsymbol
  have hlength : rest.length = d.type.length + d.defaultTokens.length := by
    simpa using congrArg List.length hrest
  have htype := List.length_pos_iff.mpr d.typed
  have hshort : ¬ ((!true) = true ∨ (declare :: name :: rest).length < 3) := by
    simp
    omega
  have hindex := findIdx?_bare (p := fun t => decide (t.upper = "DEFAULT")) (fun _ => rfl) hrest
  rw [if_neg hshort]
  simp only [List.drop_succ_cons, List.drop_zero]
  rw [hindex]
  cases hdefault : d.default with
  | none =>
    have htokens : d.defaultTokens = [] := by simp [LocalDeclaration.defaultTokens, hdefault]
    have hnone : (d.type ++ d.defaultTokens).findIdx?
      (fun t => decide (t.upper = "DEFAULT")) = none := by
      rw [htokens, List.append_nil]
      exact List.findIdx?_eq_none_iff.mpr fun t ht => decide_eq_false (d.undefaulted t ht)
    have hrestNe : rest ≠ [] := by
      rw [← List.length_pos_iff]
      omega
    rw [hnone]
    simp only [Option.map_none]
    rw [if_neg hrestNe]
    exact ⟨none, by rw [← hsymbol]; rfl, rfl⟩
  | some x =>
    have htokens : d.defaultTokens = x.1.token :: x.2 := by
      simp [LocalDeclaration.defaultTokens, hdefault]
    have hsome : (d.type ++ d.defaultTokens).findIdx? (fun t => decide (t.upper = "DEFAULT")) =
        some d.type.length := by
      rw [htokens]
      exact findIdx?_append_cons (fun t ht => decide_eq_false (d.undefaulted t ht))
        (decide_eq_true x.1.upper_eq)
    have hvalue := List.length_pos_iff.mpr (d.valued x hdefault)
    rw [htokens, List.length_cons] at hlength
    have htypes : between (declare :: name :: rest) 2 (d.type.length + 2) ≠ [] := by
      rw [← List.length_pos_iff]
      simp [between]
      omega
    rw [hsome]
    simp only [Option.map_some]
    rw [if_neg htypes, Option.bind_some, if_pos (by simp; omega)]
    exact ⟨_, by rw [← hsymbol]; rfl, rfl⟩

theorem sourceRef_of_declared {n : AccessNode} {x : DeclaredSymbolType}
    (h : declaredSymbolType n = some x) : x.sourceRef = n.nodeId := by
  unfold declaredSymbolType at h
  dsimp only at h
  split at h
  · exact nomatch h
  generalize (((scan n.text).tokens.filter (·.value ≠ ";")).drop 2).findIdx? (·.upper = "DEFAULT") =
    index at h
  generalize (scan n.text).tokens.filter (·.value ≠ ";") = tokens at h
  generalize (match index.map (· + 2) with
    | some index => between tokens 2 index
    | none => tokens.drop 2) = typeTokens at h
  split at h
  · exact nomatch h
  obtain ⟨name, -, rfl⟩ := Option.map_eq_some_iff.mp h
  rfl

end Content

/-! ## Folded names -/

theorem upper_stripBy {p : Char → Bool} {text : List Char} (h : Text.upper text = text) :
    Text.upper (Text.stripBy p text) = Text.stripBy p text := by
  have hfixed : ∀ c ∈ text, c.toUpper = id c :=
    List.map_inj_left.mp (h.trans (List.map_id text).symm)
  refine (List.map_inj_left.mpr fun c hc => hfixed c ?_).trans (List.map_id _)
  have hmem : c ∈ (text.dropWhile p).reverse.dropWhile p := List.mem_reverse.mp hc
  exact (List.dropWhile_suffix p).mem (List.mem_reverse.mp ((List.dropWhile_suffix p).mem hmem))

theorem head?_stripBy {p : Char → Bool} {c : Char} {cs : List Char} (hc : p c = false) :
    (Text.stripBy p (c :: cs)).head? = some c := by
  have hlast : (c :: cs).reverse.dropWhile p ≠ [] := by
    intro h
    have hall := List.dropWhile_eq_nil_iff.mp h c (by simp)
    rw [hc] at hall
    exact nomatch hall
  obtain ⟨dropped, hdropped⟩ := List.dropWhile_suffix p (l := (c :: cs).reverse)
  have hgetLast : ((c :: cs).reverse.dropWhile p).getLast? = some c := by
    have hreverse : ((c :: cs).reverse).getLast? = some c := by simp
    rwa [← hdropped, List.getLast?_append_of_ne_nil _ hlast] at hreverse
  rw [Text.stripBy, List.dropWhile_cons_of_neg (by simp [hc]), List.head?_reverse, hgetLast]

theorem upperString_strippedUpper {t : Token} {symbols : List String} (ht : t.Lexed)
    (hsymbols : ∀ x ∈ symbols, Text.upperString x = x)
    (hlooks : looksLikeSymbol symbols (strippedUpper t) = true) :
    Text.upperString (strippedUpper t) = strippedUpper t := by
  rcases ht with hfold | ⟨hsame, c, hc, hword, hquote⟩
  · rw [strippedUpper, hfold, Text.upperString, Text.upperString, String.toList_ofList,
      String.toList_ofList, upper_stripBy (Text.upper_upper _)]
  · simp only [looksLikeSymbol, Bool.or_eq_true, decide_eq_true_eq] at hlooks
    have hhead : (strippedUpper t).toList.head? = some c := by
      obtain ⟨cs, hcs⟩ : ∃ cs, t.value.toList = c :: cs := by
        cases hvalue : t.value.toList with
        | nil => simp [hvalue] at hc
        | cons d ds =>
          rw [hvalue] at hc
          exact ⟨ds, by rw [Option.some.inj hc]⟩
      rw [strippedUpper, String.toList_ofList, hsame, hcs]
      exact head?_stripBy (decide_eq_false hquote)
    have hletter (d e : Char) (hd : isWordStart d = true)
        (h : [d, e].isPrefixOf (strippedUpper t).toList = true) : False := by
      obtain ⟨rest, hrest⟩ := List.isPrefixOf_iff_prefix.mp h
      rw [← hrest] at hhead
      obtain rfl := Option.some.inj hhead
      rw [hd] at hword
      cases hword
    rcases hlooks with (hmem | hp) | hv
    · exact hsymbols _ hmem
    · exact absurd (hletter 'P' '_' (by decide) hp) not_false
    · exact absurd (hletter 'V' '_' (by decide) hv) not_false

theorem upperString_recorded {s : SqlStatement} {x : String} (h : x ∈ s.recorded) :
    Text.upperString x = x := by
  have hnames : ∃ t : Token, x = t.name := by
    have hsecond (h : x ∈ s.tokens[1]?.toList.map Token.name) : ∃ t : Token, x = t.name := by
      obtain ⟨t, -, rfl⟩ := List.mem_map.mp h
      exact ⟨t, rfl⟩
    have hidentifiers {tokens : List Token} (h : x ∈ identifierNames tokens) :
        ∃ t : Token, x = t.name := by
      obtain ⟨t, -, rfl⟩ := List.mem_map.mp h
      exact ⟨t, rfl⟩
    unfold SqlStatement.recorded at h
    split at h
    · exact hsecond h
    · exact hsecond h
    · split at h
      · exact hsecond h
      · exact nomatch h
    · obtain ⟨target, -, rfl⟩ := List.mem_map.mp h
      exact ⟨_, rfl⟩
    · exact nomatch h
    · exact hidentifiers h
    · split at h
      · exact nomatch h
      · obtain ⟨i, -, h⟩ := List.mem_flatMap.mp h
        exact hidentifiers h
    · exact nomatch h
    · exact nomatch h
    · exact nomatch h
    · exact nomatch h
  obtain ⟨t, rfl⟩ := hnames
  exact upperString_name t

/-! ## When the findings are sound -/

namespace WrittenProcedure

variable {p : WrittenProcedure}

/-- The facts of the procedure. -/
def facts (p : WrittenProcedure) : List StateAccessFact :=
  buildStateAccessFacts p.parameters p.accessNodes

theorem mem_facts {f : StateAccessFact} : f ∈ p.facts ↔ ∃ n ∈ p.accessNodes,
    (∃ x ∈ n.definedNames, ⟨x, .define, n.nodeId⟩ = f) ∨
      ∃ text ∈ n.useTexts, ∃ x ∈ symbolUses text (symbolNames p.parameters p.accessNodes),
        ⟨x, .use, n.nodeId⟩ = f := by
  simp only [facts, buildStateAccessFacts, List.mem_flatMap, List.mem_append, List.mem_map]

theorem refsOfSymbol_eq_nil {kind : StateAccessKind} {symbol : String} :
    refsOfSymbol kind p.facts symbol = [] ↔
      ∀ f ∈ p.facts, f.accessKind = kind → Text.upperString f.symbolName ≠ symbol := by
  simp [refsOfSymbol, List.filter_eq_nil_iff]

theorem no_definition_iff {symbol : String} :
    refsOfSymbol .define p.facts symbol = [] ↔ ¬ p.Records symbol := by
  rw [refsOfSymbol_eq_nil]
  constructor
  · rintro h ⟨n, hn, s, hs, hsymbol⟩
    have hdefined : symbol ∈ (n.content.node p.source n.ref).definedNames := by
      rw [definedNames_node, hs]
      exact hsymbol
    refine h _ (mem_facts.mpr ⟨_, List.mem_map_of_mem hn, .inl ⟨_, hdefined, rfl⟩⟩) rfl ?_
    exact upperString_recorded hsymbol
  · intro h f hf hkind hsymbol
    obtain ⟨_, hnode, hfact⟩ := mem_facts.mp hf
    obtain ⟨n, hn, rfl⟩ := List.mem_map.mp hnode
    rcases hfact with ⟨x, hx, rfl⟩ | ⟨text, -, x, -, rfl⟩
    · rw [definedNames_node] at hx
      split at hx
      · next s hs =>
          rw [upperString_recorded hx] at hsymbol
          exact h ⟨n, hn, s, hs, hsymbol ▸ hx⟩
      · exact nomatch hx
    · exact nomatch hkind

theorem symbol_mem_symbolNames {n : WrittenNode} (hn : n ∈ p.nodes)
    (hd : n.content = .declaration d) : d.symbol ∈ symbolNames p.parameters p.accessNodes := by
  have hwithin : Within p.source d.tokens := by
    have := p.within n hn
    rwa [hd] at this
  have hscan : (scan (Content.node p.source n.ref (.declaration d)).text).tokens.map Token.bare =
      d.tokens.map Token.bare := scan_text hwithin (by simp [LocalDeclaration.tokens])
  have hsecond := congrArg (fun ts : List Token => ts[1]?.map Token.name) hscan
  simp only [List.getElem?_map, Option.map_map] at hsecond
  refine List.mem_append_right _ (List.mem_filterMap.mpr ⟨n.content.node p.source n.ref, ?_, ?_⟩)
  · rw [List.mem_filter]
    exact ⟨List.mem_map_of_mem hn, by rw [hd]; exact d.isVariableDeclaration_node⟩
  · rw [hd]
    exact hsecond

theorem upperString_symbolNames {x : String} (h : x ∈ symbolNames p.parameters p.accessNodes) :
    Text.upperString x = x := by
  rcases List.mem_append.mp h with h | h
  · obtain ⟨parameter, -, rfl⟩ := List.mem_map.mp h
    exact Text.upperString_upperString _
  · obtain ⟨n, -, hx⟩ := List.mem_filterMap.mp h
    obtain ⟨t, -, rfl⟩ := Option.map_eq_some_iff.mp hx
    exact upperString_name t

/-- Only tokens of the statement are searched. -/
theorem searched_subset {s : SqlStatement} {t : Token} (ht : t ∈ s.searched) : t ∈ s.tokens := by
  have htrim {tokens : List Token} (h : t ∈ trimSemicolon tokens) : t ∈ tokens :=
    (isPrefix_trimSemicolon tokens).mem h
  have hassignment (h : t ∈ SqlStatement.afterEquals s.tokens) : t ∈ s.tokens := by
    unfold SqlStatement.afterEquals at h
    split at h
    · exact nomatch h
    split at h
    · exact nomatch h
    · exact List.mem_of_mem_drop (htrim h)
  have hquery (h : t ∈ SqlStatement.withoutTargets s.tokens) : t ∈ s.tokens := by
    unfold SqlStatement.withoutTargets at h
    split at h
    · rcases List.mem_append.mp h with h | h
      · exact List.mem_of_mem_take h
      · exact List.mem_of_mem_drop h
    · exact nomatch h
  have hprepare (h : t ∈ SqlStatement.preparedTokens s.tokens) : t ∈ s.tokens := by
    unfold SqlStatement.preparedTokens at h
    split at h
    · exact nomatch h
    split at h
    · exact nomatch h
    split at h
    · exact nomatch h
    · exact List.mem_of_mem_drop (htrim h)
  have hexecute (h : t ∈ SqlStatement.executedTokens s.tokens) : t ∈ s.tokens := by
    unfold SqlStatement.executedTokens at h
    split at h
    · exact nomatch h
    dsimp only at h
    split at h
    · exact htrim (List.mem_of_mem_drop h)
    split at h
    · exact nomatch h
    · obtain ⟨group, hgroup, h⟩ := List.mem_flatten.mp h
      exact htrim (List.mem_of_mem_drop (((isInfix_splitTopLevel _ _ _).2 group hgroup).mem h))
  unfold SqlStatement.searched at ht
  split at ht
  · exact hassignment ht
  · exact hquery ht
  · exact hquery ht
  · exact hquery ht
  · exact hprepare ht
  · exact hexecute ht
  · exact nomatch ht

theorem lexed_searched {n : WrittenNode} (hn : n ∈ p.nodes) {t : Token}
    (ht : t ∈ n.content.searched) : t.Lexed := by
  have hwithin := p.within n hn
  have hmark (mark : String) (h : mark = Text.upperString mark) : (punctuation mark).Lexed := .inl h
  generalize n.content = content at hwithin ht
  cases content with
  | declaration d => exact nomatch ht
  | statement s => exact hwithin.lexed (searched_subset ht)
  | condition selector tokens =>
    cases selector with
    | none => exact hwithin.2.lexed ht
    | some selector =>
      simp only [Content.searched, List.mem_cons, List.mem_append, List.not_mem_nil, or_false] at ht
      rcases ht with rfl | ht | rfl | rfl | rfl | ht | rfl
      · exact hmark "(" (by decide)
      · exact (hwithin.1 selector rfl).lexed ht
      · exact hmark ")" (by decide)
      · exact hmark "=" (by decide)
      · exact hmark "(" (by decide)
      · exact hwithin.2.lexed ht
      · exact hmark ")" (by decide)

theorem no_use_iff {n : WrittenNode} (hn : n ∈ p.nodes) (hd : n.content = .declaration d) :
    refsOfSymbol .use p.facts d.symbol = [] ↔ ¬ p.Mentions d.symbol := by
  have hsymbol := symbol_mem_symbolNames hn hd
  have hnames (m : WrittenNode) (hm : m ∈ p.nodes) (x : String) :
      (∃ text ∈ (m.content.node p.source m.ref).useTexts, x ∈ textNames text) ↔
        ∃ t ∈ m.content.searched, strippedUpper t = x := by
    rw [← List.mem_flatMap, names_node (p.within m hm), List.mem_map]
  rw [refsOfSymbol_eq_nil]
  constructor
  · rintro h ⟨m, hm, hmention⟩
    obtain ⟨text, htext, hx⟩ := (hnames m hm _).mpr hmention
    have hlooks : looksLikeSymbol (symbolNames p.parameters p.accessNodes) d.symbol = true := by
      simp [looksLikeSymbol, hsymbol]
    refine h _ (mem_facts.mpr ⟨_, List.mem_map_of_mem hm, .inr ⟨text, htext, d.symbol,
      List.mem_filter.mpr ⟨hx, hlooks⟩, rfl⟩⟩) rfl (upperString_symbolNames hsymbol)
  · intro h f hf hkind hname
    obtain ⟨_, hnode, hfact⟩ := mem_facts.mp hf
    obtain ⟨m, hm, rfl⟩ := List.mem_map.mp hnode
    rcases hfact with ⟨x, -, rfl⟩ | ⟨text, htext, x, hx, rfl⟩
    · exact nomatch hkind
    · obtain ⟨hx, hlooks⟩ := List.mem_filter.mp hx
      obtain ⟨t, ht, rfl⟩ := (hnames m hm x).mp ⟨text, htext, hx⟩
      have hfolded := upperString_strippedUpper (lexed_searched hm ht)
        (fun x hx => upperString_symbolNames hx) hlooks
      exact h ⟨m, hm, t, ht, hfolded.symm.trans hname⟩

theorem findingOf_head {nodes : List NodeRef} {facts : List StateAccessFact}
    {x : DeclaredSymbolType} {f : SemanticFinding} (h : findingOf nodes facts x = some f)
    (hx : x.sourceRef ∈ nodes) : f.evidenceNodeRefs.head? = some x.sourceRef := by
  unfold findingOf at h
  dsimp only at h
  generalize refsOfSymbol .define facts (Text.upperString x.symbolName) ++
    (if x.defaultExpression.isSome = true then [x.sourceRef] else []) = assigned at h
  split at h
  · exact nomatch h
  split at h
  · obtain rfl := Option.some.inj h
    simp [hx]
  split at h
  · obtain rfl := Option.some.inj h
    rw [List.eraseDups_cons, List.filter_cons_of_pos (by simpa using hx)]
    rfl
  · exact nomatch h

theorem nodeId_node (source : String) (ref : NodeRef) (content : Content) :
    (content.node source ref).nodeId = ref := by
  cases content with
  | declaration => rfl
  | statement => rfl
  | condition selector =>
    cases selector with
    | none => rfl
    | some => rfl

/-- The findings for a declared variable, one by one. -/
theorem reported_iff_finding {n : WrittenNode} (hn : n ∈ p.nodes)
    (hd : n.content = .declaration d) : ∃ default, default.isSome = d.default.isSome ∧
      ∀ code, p.Reported code n.ref ↔
        (findingOf (p.accessNodes.map AccessNode.nodeId) p.facts
          ⟨d.symbol, .localVariable, default, n.ref⟩).map SemanticFinding.code = some code := by
  have hwithin : Within p.source d.tokens := by
    have := p.within n hn
    rwa [hd] at this
  obtain ⟨default, hdeclared, hdefault⟩ := declaredSymbolType_declaration hwithin
  have hnode : n.content.node p.source n.ref ∈ p.accessNodes := List.mem_map_of_mem hn
  have hrefs : n.ref ∈ p.accessNodes.map AccessNode.nodeId :=
    List.mem_map.mpr ⟨_, hnode, nodeId_node _ _ _⟩
  refine ⟨default, hdefault, fun code => ⟨?_, fun h => ?_⟩⟩
  · rintro ⟨f, hf, rfl, hhead⟩
    obtain ⟨x, hx, hfinding⟩ := List.mem_filterMap.mp hf
    rcases List.mem_append.mp hx with hx | hx
    · obtain ⟨parameter, -, rfl⟩ := List.mem_map.mp hx
      simp [findingOf] at hfinding
    · obtain ⟨_, hnode', hx⟩ := List.mem_filterMap.mp hx
      have hsource := sourceRef_of_declared hx
      have hmem : x.sourceRef ∈ p.accessNodes.map AccessNode.nodeId :=
        List.mem_map.mpr ⟨_, hnode', hsource.symm⟩
      obtain ⟨m, hm, rfl⟩ := List.mem_map.mp hnode'
      have hfirst := findingOf_head hfinding hmem
      rw [hhead, hsource, nodeId_node] at hfirst
      obtain rfl := List.inj_on_of_nodup_map p.distinct hm hn (Option.some.inj hfirst).symm
      rw [hd, hdeclared] at hx
      obtain rfl := Option.some.inj hx
      exact congrArg (Option.map SemanticFinding.code) hfinding
  · obtain ⟨f, hfinding, rfl⟩ := Option.map_eq_some_iff.mp h
    refine ⟨f, List.mem_filterMap.mpr ⟨_, List.mem_append_right _ (List.mem_filterMap.mpr
      ⟨_, hnode, ?_⟩), hfinding⟩, rfl, findingOf_head hfinding hrefs⟩
    rw [hd]
    exact hdeclared

/-- The variable has a default, or some statement is recorded to assign it. -/
def Assigned (p : WrittenProcedure) (d : LocalDeclaration) : Prop :=
  d.default.isSome = true ∨ p.Records d.symbol

theorem code_findingOf {n : WrittenNode} (hn : n ∈ p.nodes)
    (hd : n.content = .declaration d) {default : Option String}
    (hdefault : default.isSome = d.default.isSome) (code : FindingCode) :
    (findingOf (p.accessNodes.map AccessNode.nodeId) p.facts
        ⟨d.symbol, .localVariable, default, n.ref⟩).map SemanticFinding.code = some code ↔
      code = .declaredSymbolNeverAssigned ∧ ¬ p.Assigned d ∨
        code = .assignedSymbolNeverConsumed ∧ p.Assigned d ∧ ¬ p.Mentions d.symbol := by
  have hsymbol : Text.upperString d.symbol = d.symbol := upperString_name _
  have hassigned : refsOfSymbol .define p.facts d.symbol ++
      (if default.isSome = true then [n.ref] else []) = [] ↔ ¬ p.Assigned d := by
    rw [List.append_eq_nil_iff, no_definition_iff, Assigned, not_or, hdefault, and_comm]
    simp
  unfold findingOf
  dsimp only
  rw [hsymbol, if_neg (by simp)]
  by_cases hnever : p.Assigned d
  · rw [if_neg fun h => hassigned.mp h hnever]
    by_cases hmention : p.Mentions d.symbol
    · rw [if_neg fun h => (no_use_iff hn hd).mp h hmention]
      simp [hnever, hmention]
    · rw [if_pos ((no_use_iff hn hd).mpr hmention)]
      simp only [Option.map_some, Option.some.injEq, hnever, hmention, not_true_eq_false, and_false,
        false_or, not_false_eq_true, and_true]
      exact eq_comm
  · rw [if_pos (hassigned.mpr hnever)]
    simp only [Option.map_some, Option.some.injEq, hnever, not_false_eq_true, and_true, false_and,
      and_false, or_false]
    exact eq_comm

theorem reported_iff {n : WrittenNode} (hn : n ∈ p.nodes)
    (hd : n.content = .declaration d) (code : FindingCode) : p.Reported code n.ref ↔
      code = .declaredSymbolNeverAssigned ∧ ¬ p.Assigned d ∨
        code = .assignedSymbolNeverConsumed ∧ p.Assigned d ∧ ¬ p.Mentions d.symbol := by
  obtain ⟨default, hdefault, hreported⟩ := reported_iff_finding hn hd
  rw [hreported code, code_findingOf hn hd hdefault]

end WrittenProcedure

/-- The findings are sound: a variable found never consumed is read nowhere, and one found never
assigned is assigned nowhere. -/
def FindingsSound (p : WrittenProcedure) : Prop :=
  ∀ n ∈ p.nodes, ∀ d, n.content = .declaration d →
    (p.Reported .assignedSymbolNeverConsumed n.ref → ¬ p.Reads n.ref) ∧
      (p.Reported .declaredSymbolNeverAssigned n.ref → ¬ p.Writes n.ref)

/-- They are sound just when every variable that is assigned and read is mentioned where uses are
searched, and every variable that is written is recorded. -/
theorem findings_sound_iff (p : WrittenProcedure) : FindingsSound p ↔
    ∀ n ∈ p.nodes, ∀ d, n.content = .declaration d →
      (p.Reads n.ref → d.default.isSome = true ∨ p.Records d.symbol → p.Mentions d.symbol) ∧
        (p.Writes n.ref → d.default.isSome = true ∨ p.Records d.symbol) := by
  refine forall_congr' fun n => forall_congr' fun hn => forall_congr' fun d =>
    forall_congr' fun hd => ?_
  rw [WrittenProcedure.reported_iff hn hd, WrittenProcedure.reported_iff hn hd]
  simp only [WrittenProcedure.Assigned, reduceCtorEq, false_and, false_or, true_and, or_false]
  refine and_congr ⟨fun h hread hassigned => ?_, fun h hreport hread => ?_⟩
    ⟨fun h hwrite => ?_, fun h hnever hwrite => ?_⟩
  · by_contra hmention
    exact h ⟨hassigned, hmention⟩ hread
  · exact hreport.2 (h hread hreport.1)
  · by_contra hnever
    exact h hnever hwrite
  · exact hnever (h hwrite)

/-! ## A variable passed to a procedure -/

def callSource : String := "CREATE PROCEDURE P() BEGIN DECLARE V_X INT DEFAULT 1; CALL Q(V_X); END"

/-- `V_X` -/
def identX (offset : Nat) : Ident :=
  ⟨wordToken "V_X" offset, rfl, ⟨'V', ['_', 'X'], (by decide : "V_X".toList = _), .inl (by decide)⟩,
    (by decide : "V_X" ∉ reservedWords)⟩

/-- `DECLARE V_X INT DEFAULT 1;` -/
def declareX : LocalDeclaration where
  declare := ⟨wordToken "DECLARE" 27, rfl, by decide⟩
  name := identX 35
  type := [wordToken "INT" 39]
  default := some (⟨wordToken "DEFAULT" 43, rfl, by decide⟩, [⟨.number, "1", "1", 51⟩])
  terminator := some ⟨markToken ";" 52, rfl, rfl, rfl⟩
  typed := List.cons_ne_nil _ _
  undefaulted := by decide
  valued := by
    rintro _ ⟨⟩
    exact List.cons_ne_nil _ _
  plain := by decide

/-- `CALL Q(V_X);` -/
def callQ : SqlStatement where
  label := none
  form := .call ⟨wordToken "CALL" 54, rfl, by decide⟩
    ⟨wordToken "Q" 59, rfl, ⟨_, _, rfl, .inl (by decide)⟩, by decide⟩ [markToken "(" 60]
    [.input [wordToken "V_X" 61, markToken ")" 64]]
  terminator := some ⟨markToken ";" 65, rfl, rfl, rfl⟩

@[simp] def passesXNodes : List WrittenNode :=
  [⟨"declare-x", .declaration declareX, [], by simp⟩,
    ⟨"call-q", .statement callQ, [wordToken "V_X" 61], by decide⟩]

theorem passesXNodes_within : ∀ n ∈ passesXNodes, n.content.Within callSource := by
  have hdeclare : Within callSource declareX.tokens :=
    ⟨(scan callSource).tokens.take 6, (scan callSource).tokens.drop 12, by decide +kernel,
      by decide +kernel⟩
  have hcall : Within callSource callQ.tokens :=
    ⟨(scan callSource).tokens.take 12, (scan callSource).tokens.drop 18, by decide +kernel,
      by decide +kernel⟩
  simp only [passesXNodes, List.mem_cons, List.not_mem_nil, or_false, forall_eq_or_imp, forall_eq]
  exact ⟨hdeclare, hcall⟩

theorem passesXNodes_name (t : Token) : ∀ n ∈ passesXNodes,
    (if t.name = "V_X" then some "declare-x" else none) = some n.ref →
      ∀ d, n.content = .declaration d → t.name = d.symbol := by
  intro n hn hresolve d hd
  simp only [passesXNodes, List.mem_cons, List.not_mem_nil, or_false] at hn
  rcases hn with rfl | rfl
  · cases hd
    have hname : t.name = "V_X" := by
      by_contra hname
      rw [if_neg hname] at hresolve
      cases hresolve
    rw [hname]
    decide +kernel
  · cases hd

/-- The procedure declares `V_X` and passes it on. -/
def passesX : WrittenProcedure where
  source := callSource
  parameters := []
  nodes := passesXNodes
  within := passesXNodes_within
  distinct := by decide
  resolve t := if t.name = "V_X" then some "declare-x" else none
  resolve_name := passesXNodes_name

/-- Every statement of it is one the parser knows, `V_X` is found never consumed, and the call reads
it. -/
theorem passed_variable_is_found_unused :
    (passesX.accessNodes.all fun n => n.statement.any fun s => s.kind ≠ .opaqueRegion) = true ∧
      passesX.findings.map (fun f => (f.code, f.symbol)) = [(.assignedSymbolNeverConsumed, "V_X")] ∧
      ¬ FindingsSound passesX := by
  have hfindings : passesX.findings = [⟨.assignedSymbolNeverConsumed, "V_X", ["declare-x"]⟩] := by
    decide +kernel
  refine ⟨by decide +kernel, by rw [hfindings]; rfl, fun h => ?_⟩
  have hsound := (h ⟨"declare-x", .declaration declareX, [], by simp⟩ (List.mem_cons_self ..)
    declareX rfl).1
  refine hsound ⟨_, hfindings ▸ List.mem_cons_self .., rfl, rfl⟩ ?_
  exact ⟨⟨"call-q", .statement callQ, [wordToken "V_X" 61], by decide⟩, by simp [passesX],
    wordToken "V_X" 61, List.mem_cons_self .., by decide +kernel⟩

end AtlasDb.Analysis.SymbolUsage
