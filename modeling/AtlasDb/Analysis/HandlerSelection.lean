import Mathlib.Data.List.TakeWhile
import AtlasDb.Analysis.HandlerFlow

/-!
# Which handler a statement is bound to

`_resolve_named_conditions` gives handlers the SQLSTATE their condition stands for, `_bind_handlers`
picks the handlers of a statement, and `HandlerCoverageAnalyzer` asks them about NOT FOUND. What a
condition of the grammar stands for is said apart from the code (`HandlerCondition.Denotes`); the
code resolves it unless the SQLSTATE follows without white space or the name is quoted or begins
with `SQLSTATE` (`Written.resolved`, `Written.misread`).
-/

namespace AtlasDb.Analysis

open Core Parsing

/-! ## Conditions -/

/-- `ConditionDeclaration`, without the scope it is found in. The parser strips the quotes of the
name. -/
structure ConditionDeclaration where
  conditionName : String
  sqlstate : String
  unquoted : conditionName.toList.head? ≠ some '"'

/-- The `condition_declaration` of the nodes of the table. -/
abbrev Declared : Type := NodeRef → Option ConditionDeclaration

/-- The declarations of one scope, in the order of the table. -/
abbrev ConditionScope : Type := List (NodeRef × ConditionDeclaration)

section Scopes

variable (declared : Declared)

mutual

/-- The conditions whose `lexical_scope_ref` is the scope a node stands in. -/
def nodeConditions : Node → ConditionScope
  | .simple id _ => (declared id).toList.map fun d => (id, d)
  | .compound _ _ _ _ => []
  | .ifRegion _ arms => armConditions arms
  | .loop _ _ body => seqConditions body
  | .handler _ _ _ => []

def seqConditions : List Node → ConditionScope
  | [] => []
  | n :: ns => nodeConditions n ++ seqConditions ns

def armConditions : List Arm → ConditionScope
  | [] => []
  | .mk _ body :: arms => seqConditions body ++ armConditions arms

end

end Scopes

/-- `declarations.get(scope, {}).get(name)`: the last declaration of the name. -/
def declarationIn (scope : ConditionScope) (name : String) :
    Option (NodeRef × ConditionDeclaration) :=
  scope.reverse.find? fun d => d.2.conditionName = name

/-- The loop over the scopes around a handler, innermost first. -/
def findCondition (name : String) : List ConditionScope → Option (NodeRef × ConditionDeclaration)
  | [] => none
  | scope :: outer =>
    match declarationIn scope name with
    | some found => some found
    | none => findCondition name outer

inductive ConditionResolutionStatus where
  | directSqlstate
  | builtinCondition
  | namedConditionResolved
  | namedConditionUnresolved
  | conditionClass
deriving DecidableEq

/-- What `_resolve_named_conditions` writes into a handler. -/
structure ConditionResolution where
  status : ConditionResolutionStatus
  sqlstate : Option String := none
  namedConditionRef : Option NodeRef := none

/-- `normalized.split(maxsplit=1)[1].strip("'")`, if there is a second part. -/
def directSqlstate (normalized : List Char) : Option String :=
  match normalized.dropWhile (· ≠ ' ') with
  | [] => none
  | _ :: text => some (String.ofList (Text.stripBy (· = '\'') text))

/-- The turn of `_resolve_named_conditions` for a handler with the condition text. -/
def resolveCondition (scopes : List ConditionScope) (conditionText : String) :
    ConditionResolution :=
  let normalized := Text.normalized conditionText
  if normalized = "NOT FOUND" then { status := .builtinCondition, sqlstate := some "02000" }
  else if "SQLSTATE".toList.isPrefixOf normalized.toList then
    { status := .directSqlstate, sqlstate := directSqlstate normalized.toList }
  else if normalized = "SQLEXCEPTION" ∨ normalized = "SQLWARNING" then { status := .conditionClass }
  else
    match findCondition normalized scopes with
    | some (ref, declaration) =>
      { status := .namedConditionResolved, sqlstate := some declaration.sqlstate,
        namedConditionRef := some ref }
    | none => { status := .namedConditionUnresolved }

def resolvedRegion (scopes : List ConditionScope) (region : HandlerRegion) : HandlerRegion :=
  { region with resolvedSqlstate := (resolveCondition scopes region.handledConditionText).sqlstate }

section Resolution

variable (declared : Declared)

mutual

def resolveNode (scopes : List ConditionScope) : Node → Node
  | .simple id stmt => .simple id stmt
  | .compound id label text body =>
    .compound id label text (resolveSeq (seqConditions declared body :: scopes) body)
  | .ifRegion id arms => .ifRegion id (resolveArms scopes arms)
  | .loop id region body => .loop id region (resolveSeq scopes body)
  | .handler id region body =>
    .handler id (resolvedRegion scopes region)
      (resolveSeq (seqConditions declared body :: scopes) body)

def resolveSeq (scopes : List ConditionScope) : List Node → List Node
  | [] => []
  | n :: ns => resolveNode scopes n :: resolveSeq scopes ns

def resolveArms (scopes : List ConditionScope) : List Arm → List Arm
  | [] => []
  | .mk header body :: arms => .mk header (resolveSeq scopes body) :: resolveArms scopes arms

end

mutual

theorem resolveNode_refs (scopes : List ConditionScope) (n : Node) :
    (resolveNode declared scopes n).refs = n.refs := by
  cases n with
  | simple => rfl
  | compound id label text body =>
    exact congrArg (id :: ·) (resolveSeq_refs (seqConditions declared body :: scopes) body)
  | ifRegion id arms => exact congrArg (id :: ·) (resolveArms_refs scopes arms)
  | loop id region body => exact congrArg (id :: ·) (resolveSeq_refs scopes body)
  | handler id region body =>
    exact congrArg (id :: ·) (resolveSeq_refs (seqConditions declared body :: scopes) body)

theorem resolveSeq_refs (scopes : List ConditionScope) (body : List Node) :
    refsOf (resolveSeq declared scopes body) = refsOf body := by
  cases body with
  | nil => rfl
  | cons n ns =>
    show (resolveNode declared scopes n).refs ++ refsOf (resolveSeq declared scopes ns) = _
    rw [resolveNode_refs scopes n, resolveSeq_refs scopes ns]
    rfl

theorem resolveArms_refs (scopes : List ConditionScope) (arms : List Arm) :
    refsOfArms (resolveArms declared scopes arms) = refsOfArms arms := by
  cases arms with
  | nil => rfl
  | cons a arms =>
    obtain ⟨header, body⟩ := a
    show header.armId :: (refsOf (resolveSeq declared scopes body) ++
      refsOfArms (resolveArms declared scopes arms)) = _
    rw [resolveSeq_refs scopes body, resolveArms_refs scopes arms]
    rfl

end

/-- `_resolve_named_conditions`. The parser leaves the SQLSTATE of every handler open. -/
def resolveNamedConditions (ast : ProcedureAst) : ProcedureAst :=
  { ast with
    body := resolveSeq declared [seqConditions declared ast.body] ast.body
    distinct := by rw [resolveSeq_refs]; exact ast.distinct }

end Resolution

/-! ## Coverage -/

/-- `_may_raise_not_found`; `globalAggregate` is `_outer_select_is_global_aggregate` of the query
text of a SELECT INTO. -/
def mayRaiseNotFound (globalAggregate : NodeRef → Bool) (id : NodeRef) (stmt : Statement) : Bool :=
  match stmt.kind with
  | .selectInto => !globalAggregate id
  | .fetchCursor => true
  | .execute => stmt.execute.any fun binding => binding.intoTargetNames ≠ []
  | _ => false

inductive CoverageStatus where
  | covered
  | missing
deriving DecidableEq

structure HandlerCoverageFact where
  sourceRef : NodeRef
  status : CoverageStatus
  handlerRef : Option NodeRef

/-- `by_source`: the bindings of a source that handle NOT FOUND. -/
def notFoundBindings (bindings : List HandlerFlowBinding) (id : NodeRef) :
    List HandlerFlowBinding :=
  bindings.filter fun b => b.sourceRef = id &&
    (Text.normalized b.handler.region.handledConditionText = "NOT FOUND" ||
      b.handler.region.resolvedSqlstate = some "02000")

/-- The fact about one source. Where there are several bindings the source takes the one with the
smallest digest. -/
def coverageFact (bindings : List HandlerFlowBinding) (id : NodeRef) : HandlerCoverageFact :=
  match notFoundBindings bindings id with
  | [] => { sourceRef := id, status := .missing, handlerRef := none }
  | b :: _ => { sourceRef := id, status := .covered, handlerRef := some b.handler.id }

/-- `HandlerCoverageAnalyzer.analyze`: the facts; the findings are those with status `missing`. -/
def handlerCoverage (globalAggregate : NodeRef → Bool) (ast : ProcedureAst)
    (cfg : ControlFlowGraph) :
    List HandlerCoverageFact :=
  ((statementsOf ast.body).filter fun s => mayRaiseNotFound globalAggregate s.1 s.2).map fun s =>
    coverageFact cfg.handlerBindings s.1

/-! ## What a condition stands for -/

/-- A handler condition of the grammar. `packed` is a SQLSTATE with no white space before the
string, `delimited` a name in quotes. -/
inductive HandlerCondition where
  | notFound
  | sqlException
  | sqlWarning
  | sqlstate (state : String)
  | packed (state : String)
  | named (name : String)
  | delimited (name : String)

def HandlerCondition.text : HandlerCondition → String
  | .notFound => "NOT FOUND"
  | .sqlException => "SQLEXCEPTION"
  | .sqlWarning => "SQLWARNING"
  | .sqlstate state => "SQLSTATE '" ++ state ++ "'"
  | .packed state => "SQLSTATE'" ++ state ++ "'"
  | .named name => name
  | .delimited name => "\"" ++ name ++ "\""

def isNameChar (c : Char) : Bool := c.isAlphanum || c = '_' || c = '#' || c = '$' || c = '@'

/-- A SQLSTATE is made of letters and digits. -/
def HandlerCondition.WellFormed : HandlerCondition → Prop
  | .sqlstate state | .packed state => ∀ c ∈ state.toList, c.isAlphanum = true
  | .named name =>
    (∀ c ∈ name.toList, isNameChar c = true) ∧ name ≠ "SQLEXCEPTION" ∧ name ≠ "SQLWARNING"
  | _ => True

/-- The condition is written as `_resolve_named_conditions` expects it. -/
def HandlerCondition.ReadRight : HandlerCondition → Prop
  | .packed _ | .delimited _ => False
  | .named name => "SQLSTATE".toList.isPrefixOf name.toList = false
  | _ => True

/-- The handler is written with the condition. -/
structure Written (region : HandlerRegion) (c : HandlerCondition) : Prop where
  text : Text.normalized region.handledConditionText = c.text
  wellFormed : c.WellFormed

/-- The innermost scope that declares the name declares it with the SQLSTATE. -/
def Declares (scopes : List ConditionScope) (name state : String) : Prop :=
  ∃ inner scope outer ref declaration, scopes = inner ++ scope :: outer ∧
    (∀ s ∈ inner, ∀ d ∈ s, d.2.conditionName ≠ name) ∧
    declarationIn scope name = some (ref, declaration) ∧ declaration.sqlstate = state

/-- The condition stands for the SQLSTATE, in these scopes. -/
def HandlerCondition.Denotes (scopes : List ConditionScope) : HandlerCondition → String → Prop
  | .notFound, state => state = "02000"
  | .sqlstate state', state | .packed state', state => state = state'
  | .named name, state | .delimited name, state => Declares scopes name state
  | _, _ => False

theorem declarationIn_eq_none {scope : ConditionScope} {name : String} :
    declarationIn scope name = none ↔ ∀ d ∈ scope, d.2.conditionName ≠ name := by
  rw [declarationIn, List.find?_eq_none]
  simp

/-- The declaration found is the innermost one. -/
theorem findCondition_eq_some {name : String} {scopes : List ConditionScope}
    {found : NodeRef × ConditionDeclaration} : findCondition name scopes = some found ↔
      ∃ inner scope outer, scopes = inner ++ scope :: outer ∧
        (∀ s ∈ inner, ∀ d ∈ s, d.2.conditionName ≠ name) ∧
        declarationIn scope name = some found := by
  induction scopes with
  | nil =>
    constructor
    · exact nofun
    · rintro ⟨inner, scope, outer, heq, -⟩
      simp at heq
  | cons scope scopes ih =>
    rw [findCondition]
    cases hhere : declarationIn scope name with
    | some d =>
      constructor
      · rintro h
        exact ⟨[], scope, scopes, rfl, nofun, hhere.trans h⟩
      · rintro ⟨inner, scope', outer, heq, hinner, hfound⟩
        cases inner with
        | nil =>
          obtain ⟨rfl, -⟩ := List.cons.inj heq
          exact hhere.symm.trans hfound
        | cons s inner =>
          obtain ⟨rfl, -⟩ := List.cons.inj heq
          rw [declarationIn_eq_none.mpr (hinner scope List.mem_cons_self)] at hhere
          cases hhere
    | none =>
      dsimp only
      rw [ih]
      constructor
      · rintro ⟨inner, scope', outer, rfl, hinner, hfound⟩
        refine ⟨scope :: inner, scope', outer, rfl, ?_, hfound⟩
        exact List.forall_mem_cons.mpr ⟨declarationIn_eq_none.mp hhere, hinner⟩
      · rintro ⟨inner, scope', outer, heq, hinner, hfound⟩
        cases inner with
        | nil =>
          obtain ⟨rfl, -⟩ := List.cons.inj heq
          rw [hhere] at hfound
          cases hfound
        | cons s inner =>
          exact ⟨inner, scope', outer, (List.cons.inj heq).2, (List.forall_mem_cons.mp hinner).2,
            hfound⟩

/-- The spelling with one blank is read. -/
theorem directSqlstate_text {state : String} (h : ∀ c ∈ state.toList, c.isAlphanum = true) :
    directSqlstate ("SQLSTATE '" ++ state ++ "'").toList = some state := by
  have htext : ("SQLSTATE '" ++ state ++ "'").toList =
      "SQLSTATE".toList ++ ' ' :: ('\'' :: (state.toList ++ ['\''])) := by
    rw [String.toList_append, String.toList_append]
    simp
  have hdrop :
    ("SQLSTATE".toList ++ ' ' :: ('\'' :: (state.toList ++ ['\'']))).dropWhile (· ≠ ' ') =
      ' ' :: '\'' :: (state.toList ++ ['\'']) := by
    rw [List.dropWhile_append_of_pos (List.all_eq_true.mp (by decide))]
    simp
  have hquote : ∀ c ∈ state.toList, decide (c = '\'') = false := by
    intro c hc
    apply decide_eq_false
    rintro rfl
    exact absurd (h _ hc) (by decide)
  have hstrip : Text.stripBy (· = '\'') ('\'' :: (state.toList ++ ['\''])) = state.toList := by
    rw [Text.stripBy, List.dropWhile_cons_of_pos (by decide)]
    have hfront : (state.toList ++ ['\'']).dropWhile (fun c => decide (c = '\'')) =
        if state.toList = [] then [] else state.toList ++ ['\''] := by
      cases hstate : state.toList with
      | nil => rfl
      | cons c cs =>
        rw [hstate] at hquote
        rw [List.cons_append, List.dropWhile_cons_of_neg (by simp [hquote c])]
        simp
    rw [hfront]
    split
    · next hnil => rw [hnil]; rfl
    · rw [List.reverse_concat, List.dropWhile_cons_of_pos (by decide)]
      rw [Text.dropWhile_eq_self, List.reverse_reverse]
      intro c hc
      rw [List.head?_reverse] at hc
      exact hquote c (List.mem_of_getLast? hc)
  rw [directSqlstate, htext, hdrop]
  dsimp only
  rw [hstrip, String.ofList_toList]

theorem name_ne_notFound {name : String} (h : ∀ c ∈ name.toList, isNameChar c = true) :
    name ≠ "NOT FOUND" := by
  rintro rfl
  exact absurd (h ' ' (by decide)) (by decide)

/-- What the code resolves is what the condition stands for. -/
theorem Written.resolved {region : HandlerRegion} {c : HandlerCondition} (h : Written region c)
    (hread : c.ReadRight) (scopes : List ConditionScope) (state : String) :
    (resolvedRegion scopes region).resolvedSqlstate = some state ↔ c.Denotes scopes state := by
  show (resolveCondition scopes region.handledConditionText).sqlstate = some state ↔ _
  rw [resolveCondition, h.text]
  have hwf := h.wellFormed
  cases c with
  | notFound => exact ⟨fun heq => (Option.some.inj heq).symm, fun heq => congrArg some heq.symm⟩
  | sqlException => exact ⟨nofun, nofun⟩
  | sqlWarning => exact ⟨nofun, nofun⟩
  | packed => cases hread
  | delimited => cases hread
  | sqlstate state' =>
    have hne : ("SQLSTATE '" ++ state' ++ "'") ≠ "NOT FOUND" := by
      intro heq
      have hhead := congrArg (fun text : String => text.toList.head?) heq
      rw [String.toList_append, String.toList_append] at hhead
      exact absurd hhead (by simp)
    have hstart : "SQLSTATE".toList.isPrefixOf ("SQLSTATE '" ++ state' ++ "'").toList = true := by
      rw [ List.isPrefixOf_iff_prefix, String.toList_append, String.toList_append]
      exact ⟨" '".toList ++ state'.toList ++ "'".toList, by simp⟩
    rw [HandlerCondition.text, if_neg hne, if_pos hstart, directSqlstate_text hwf]
    exact ⟨fun heq => (Option.some.inj heq).symm, fun heq => congrArg some heq.symm⟩
  | named name =>
    obtain ⟨hchars, hexception, hwarning⟩ := hwf
    have hstart : "SQLSTATE".toList.isPrefixOf name.toList = false := hread
    rw [HandlerCondition.text, if_neg (name_ne_notFound hchars),
      if_neg (by rw [hstart]; exact Bool.false_ne_true), if_neg (not_or.mpr ⟨hexception, hwarning⟩)]
    show _ ↔ Declares scopes name state
    cases hfound : findCondition name scopes with
    | none =>
      refine ⟨nofun, ?_⟩
      rintro ⟨inner, scope, outer, ref, declaration, heq, hinner, hdeclared, -⟩
      rw [findCondition_eq_some.mpr ⟨inner, scope, outer, heq, hinner, hdeclared⟩] at hfound
      cases hfound
    | some found =>
      obtain ⟨ref, declaration⟩ := found
      constructor
      · intro heq
        obtain ⟨inner, scope, outer, hsplit, hinner, hdeclared⟩ := findCondition_eq_some.mp hfound
        exact ⟨inner, scope, outer, ref, declaration, hsplit, hinner, hdeclared,
          Option.some.inj heq⟩
      · rintro ⟨inner, scope, outer, ref', declaration', hsplit, hinner, hdeclared, hstate⟩
        have hsame := hfound.symm.trans
          (findCondition_eq_some.mpr ⟨inner, scope, outer, hsplit, hinner, hdeclared⟩)
        obtain ⟨-, rfl⟩ := Prod.mk.inj (Option.some.inj hsame)
        exact congrArg some hstate

theorem directSqlstate_eq_none {normalized : List Char} (h : ' ' ∉ normalized) :
    directSqlstate normalized = none := by
  have hall : normalized.dropWhile (· ≠ ' ') = [] := by
    rw [List.dropWhile_eq_nil_iff]
    intro c hc
    apply decide_eq_true
    rintro rfl
    exact h hc
  rw [directSqlstate, hall]

/-- A condition that is written otherwise is not resolved. -/
theorem Written.misread {region : HandlerRegion} {c : HandlerCondition} (h : Written region c)
    (hread : ¬ c.ReadRight) (scopes : List ConditionScope) :
    (resolvedRegion scopes region).resolvedSqlstate = none := by
  show (resolveCondition scopes region.handledConditionText).sqlstate = none
  rw [resolveCondition, h.text]
  have hwf := h.wellFormed
  have hdirect : ∀ {text : String}, text ≠ "NOT FOUND" →
      "SQLSTATE".toList.isPrefixOf text.toList = true → ' ' ∉ text.toList →
      (if text = "NOT FOUND" then { status := .builtinCondition, sqlstate := some "02000" }
        else if "SQLSTATE".toList.isPrefixOf text.toList then
          { status := .directSqlstate, sqlstate := directSqlstate text.toList }
        else if text = "SQLEXCEPTION" ∨ text = "SQLWARNING" then { status := .conditionClass }
        else match findCondition text scopes with
          | some (ref, declaration) =>
            { status := .namedConditionResolved, sqlstate := some declaration.sqlstate,
              namedConditionRef := some ref }
          | none =>
            { status := .namedConditionUnresolved } : ConditionResolution).sqlstate = none := by
    intro text hne hstart hblank
    rw [if_neg hne, if_pos hstart, directSqlstate_eq_none hblank]
  cases c with
  | notFound => exact absurd trivial hread
  | sqlException => exact absurd trivial hread
  | sqlWarning => exact absurd trivial hread
  | sqlstate state => exact absurd trivial hread
  | packed state =>
    have htext : (HandlerCondition.packed state).text.toList =
        "SQLSTATE'".toList ++ (state.toList ++ ['\'']) := by
      rw [HandlerCondition.text, String.toList_append, String.toList_append, List.append_assoc]
      rfl
    refine hdirect ?_ ?_ ?_
    · intro heq
      have hhead := congrArg (fun text : String => text.toList.head?) heq
      rw [htext] at hhead
      exact absurd hhead (by simp)
    · rw [htext, List.isPrefixOf_iff_prefix]
      exact ⟨'\'' :: (state.toList ++ ['\'']), rfl⟩
    · rw [htext, List.mem_append, List.mem_append, not_or, not_or]
      refine ⟨by decide, fun hblank => ?_, by decide⟩
      exact absurd (hwf ' ' hblank) (by decide)
  | named name =>
    have hstart : "SQLSTATE".toList.isPrefixOf name.toList = true := by
      have hnot : ¬ "SQLSTATE".toList.isPrefixOf name.toList = false := hread
      simpa using hnot
    refine hdirect (name_ne_notFound hwf.1) hstart fun hblank => ?_
    exact absurd (hwf.1 ' ' hblank) (by decide)
  | delimited name =>
    have htext : (HandlerCondition.delimited name).text.toList = '"' :: (name.toList ++ ['"']) := by
      rw [HandlerCondition.text, String.toList_append, String.toList_append]
      rfl
    have hother : ∀ {text : String}, text.toList.head? ≠ some '"' →
        (HandlerCondition.delimited name).text ≠ text := by
      rintro text hhead rfl
      rw [htext] at hhead
      exact hhead rfl
    have hnone : findCondition (HandlerCondition.delimited name).text scopes = none := by
      cases hfound : findCondition (HandlerCondition.delimited name).text scopes with
      | none => rfl
      | some d =>
        obtain ⟨inner, scope, outer, -, -, hdeclared⟩ := findCondition_eq_some.mp hfound
        have hname : d.2.conditionName = (HandlerCondition.delimited name).text := by
          simpa using List.find?_some hdeclared
        exact absurd hname.symm (hother d.2.unquoted)
    rw [if_neg (hother (by decide)), if_neg (by rw [htext]; exact Bool.false_ne_true),
      if_neg (not_or.mpr ⟨hother (by decide), hother (by decide)⟩), hnone]

end AtlasDb.Analysis
