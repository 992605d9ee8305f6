import AtlasDb.Analysis.HandlerSelection
import AtlasDb.Semantics.Obligations
import AtlasDb.Semantics.Observability
import Mathlib.Data.List.Find

/-!
# The handler of a statement

The handlers of a procedure whose named conditions are resolved, each with the SQLSTATE its
condition stands for where it is declared (`StandsFor`). A statement should be bound to the
innermost one around it (`BoundRightly`); `handler_selection` says when it is: it stands outside the
bodies of handlers and the graph builder takes it for a source of the SQLSTATE.
-/

namespace AtlasDb.Semantics

open Core Lib Parsing Analysis

/-! ## Handlers and what their conditions stand for -/

/-- A handler as it is declared, with the conditions of the scopes around it. -/
structure ConditionSite where
  id : NodeRef
  region : HandlerRegion
  scopes : List ConditionScope

section Sites

variable (declared : Declared)

mutual

def nodeConditionSites (scopes : List ConditionScope) : Node → List ConditionSite
  | .simple _ _ => []
  | .compound _ _ _ body => conditionSites (seqConditions declared body :: scopes) body
  | .ifRegion _ arms => armConditionSites scopes arms
  | .loop _ _ body => conditionSites scopes body
  | .handler id region body =>
    ⟨id, region, scopes⟩ :: conditionSites (seqConditions declared body :: scopes) body

/-- The handlers of a sequence, inside handlers too. -/
def conditionSites (scopes : List ConditionScope) : List Node → List ConditionSite
  | [] => []
  | n :: ns => nodeConditionSites scopes n ++ conditionSites scopes ns

def armConditionSites (scopes : List ConditionScope) : List Arm → List ConditionSite
  | [] => []
  | .mk _ body :: arms => conditionSites scopes body ++ armConditionSites scopes arms

end

/-- The handlers of a procedure. -/
def procedureConditions (ast : ProcedureAst) : List ConditionSite :=
  conditionSites declared [seqConditions declared ast.body] ast.body

/-- The condition of the handler, as it is declared, stands for the SQLSTATE. -/
def StandsFor (ast : ProcedureAst) (h : Handler) (state : String) : Prop :=
  ∃ site ∈ procedureConditions declared ast, site.id = h.id ∧
    ∃ c, Written site.region c ∧ c.Denotes site.scopes state

/-- The condition is also written as the resolution expects it. -/
def ReadAs (ast : ProcedureAst) (h : Handler) (state : String) : Prop :=
  ∃ site ∈ procedureConditions declared ast, site.id = h.id ∧
    ∃ c, Written site.region c ∧ c.ReadRight ∧ c.Denotes site.scopes state

/-- Of the handlers declared in the scopes around a statement, innermost first, this is the first
one that stands for the SQLSTATE. -/
def Innermost (ast : ProcedureAst) (scopes : List (List Handler)) (state : String) (h : Handler) :
    Prop :=
  ∃ inner before after outer, scopes = inner ++ (before ++ h :: after) :: outer ∧
    (∀ scope ∈ inner, ∀ h' ∈ scope, ¬ StandsFor declared ast h' state) ∧
    (∀ h' ∈ before, ¬ StandsFor declared ast h' state) ∧ StandsFor declared ast h state

mutual

theorem resolveNode_handlers (scopes : List ConditionScope) (n : Node) :
    (resolveNode declared scopes n).handlers.map (fun h => (h.id, h.region)) =
      (nodeConditionSites declared scopes n).map fun c =>
      (c.id, resolvedRegion c.scopes c.region) := by
  cases n with
  | simple => rfl
  | compound id label text body =>
    exact resolveSeq_handlers (seqConditions declared body :: scopes) body
  | ifRegion id arms => exact resolveArms_handlers scopes arms
  | loop id region body => exact resolveSeq_handlers scopes body
  | handler id region body =>
    exact congrArg ((id, resolvedRegion scopes region) :: ·)
      (resolveSeq_handlers (seqConditions declared body :: scopes) body)

theorem resolveSeq_handlers (scopes : List ConditionScope) (body : List Node) :
    (handlersOf (resolveSeq declared scopes body)).map (fun h => (h.id, h.region)) =
      (conditionSites declared scopes body).map fun c =>
      (c.id, resolvedRegion c.scopes c.region) := by
  cases body with
  | nil => rfl
  | cons n ns =>
    rw [resolveSeq, handlersOf, List.map_append, resolveNode_handlers scopes n,
      resolveSeq_handlers scopes ns, conditionSites, List.map_append]

theorem resolveArms_handlers (scopes : List ConditionScope) (arms : List Arm) :
    (handlersOfArms (resolveArms declared scopes arms)).map (fun h => (h.id, h.region)) =
      (armConditionSites declared scopes arms).map fun c =>
        (c.id, resolvedRegion c.scopes c.region) := by
  cases arms with
  | nil => rfl
  | cons a arms =>
    obtain ⟨header, body⟩ := a
    rw [resolveArms, handlersOfArms, List.map_append, resolveSeq_handlers scopes body,
      resolveArms_handlers scopes arms, armConditionSites, List.map_append]

end

end Sites

mutual

theorem Node.handlers_sublist (n : Node) : (n.handlers.map Handler.id).Sublist n.refs := by
  cases n with
  | simple => exact List.nil_sublist _
  | compound id label text body => exact (handlersOf_sublist body).cons _
  | ifRegion id arms => exact (handlersOfArms_sublist arms).cons _
  | loop id region body => exact (handlersOf_sublist body).cons _
  | handler id region body => exact (handlersOf_sublist body).cons_cons _

theorem handlersOf_sublist (body : List Node) :
    ((handlersOf body).map Handler.id).Sublist (refsOf body) := by
  cases body with
  | nil => exact List.Sublist.refl _
  | cons n ns =>
    rw [handlersOf, List.map_append, refsOf]
    exact (Node.handlers_sublist n).append (handlersOf_sublist ns)

theorem handlersOfArms_sublist (arms : List Arm) :
    ((handlersOfArms arms).map Handler.id).Sublist (refsOfArms arms) := by
  cases arms with
  | nil => exact List.Sublist.refl _
  | cons a arms =>
    obtain ⟨header, body⟩ := a
    rw [handlersOfArms, List.map_append, refsOfArms]
    exact ((handlersOf_sublist body).append (handlersOfArms_sublist arms)).cons _

end

variable {ast : ProcedureAst}

theorem handler_unique {h h' : Handler} (hmem : h ∈ handlersOf ast.body)
    (hmem' : h' ∈ handlersOf ast.body) (hid : h.id = h'.id) : h = h' :=
  List.inj_on_of_nodup_map ((handlersOf_sublist ast.body).nodup ast.distinct) hmem hmem' hid

/-- The handlers of the scopes around a position are handlers of the procedure. -/
def ScopesIn (ast : ProcedureAst) (p : List Around) : Prop :=
  ∀ scope ∈ scopesAround ast p, scope ⊆ handlersOf ast.body

variable {s : StatementSite}

mutual

theorem nodeSites_scopes {n : Node} {rest : List Node} {p : List Around}
    (hs : s ∈ nodeSites n rest p) (hn : n.handlers ⊆ handlersOf ast.body)
    (hp : ScopesIn ast p) : ScopesIn ast s.around := by
  cases n with
  | simple id stmt =>
    obtain rfl := List.mem_singleton.mp hs
    exact hp
  | compound id label text body =>
    refine statementSites_scopes hs hn fun scope hscope => ?_
    rcases List.mem_cons.mp hscope with rfl | hscope
    · exact List.Subset.trans (scopeHandlersOf_subset body) hn
    · exact hp scope hscope
  | ifRegion id arms => exact armSites_scopes hs hn hp
  | loop id region body => exact statementSites_scopes hs hn hp
  | handler id region body =>
    exact statementSites_scopes hs (List.Subset.trans (List.subset_cons_self _ _) hn) hp

theorem statementSites_scopes {code : List Node} {p : List Around} (hs : s ∈ statementSites code p)
    (hcode : handlersOf code ⊆ handlersOf ast.body)
    (hp : ScopesIn ast p) : ScopesIn ast s.around := by
  cases code with
  | nil => cases hs
  | cons n ns =>
    obtain ⟨hn, hns⟩ := List.append_subset.mp hcode
    rcases List.mem_append.mp hs with hs | hs
    · exact nodeSites_scopes hs hn hp
    · exact statementSites_scopes hs hns hp

theorem armSites_scopes {arms : List Arm} {rest : List Node} {p : List Around}
    (hs : s ∈ armSites arms rest p) (harms : handlersOfArms arms ⊆ handlersOf ast.body)
    (hp : ScopesIn ast p) : ScopesIn ast s.around := by
  cases arms with
  | nil => cases hs
  | cons a arms =>
    obtain ⟨header, body⟩ := a
    obtain ⟨hbody, harms⟩ := List.append_subset.mp harms
    rcases List.mem_append.mp hs with hs | hs
    · exact statementSites_scopes (p := .arm rest :: p) hs hbody hp
    · exact armSites_scopes hs harms hp

end

/-! ## The handlers picked -/

/-- The statements `_handler_applies` takes for sources of the SQLSTATE: for NOT FOUND a `SELECT
INTO`, a `FETCH` or an `EXECUTE` with `INTO` between blanks, for another one those of
`_sql_exception_sources`. -/
def isSourceOf (state : String) (stmt : Statement) : Bool :=
  if state = "02000" then
    isNotFoundSource stmt.kind || (stmt.kind = .execute &&
      Text.containsList " INTO ".toList ((' ' :: Text.upper stmt.text.toList) ++ [' ']))
  else isSqlExceptionSource stmt.kind

/-- What the resolution has made of a handler the grammar admits. -/
structure Settled (region : HandlerRegion) : Prop where
  notFound : Text.normalized region.handledConditionText = "NOT FOUND" →
    region.resolvedSqlstate = some "02000"
  open_key : region.resolvedSqlstate = none → ∀ state,
    Text.normalized region.handledConditionText ≠ "SQLSTATE:" ++ state

variable {state : String} {region : HandlerRegion}

theorem settled_of_written {c : HandlerCondition} (h : Written region c)
    (scopes : List ConditionScope) : Settled (resolvedRegion scopes region) where
  notFound hnormalized := by
    change Text.normalized region.handledConditionText = "NOT FOUND" at hnormalized
    show (resolveCondition scopes region.handledConditionText).sqlstate = _
    rw [resolveCondition, if_pos hnormalized]
  open_key hopen state heq := by
    have hlist := congrArg String.toList (h.text.symm.trans heq)
    rw [String.toList_append] at hlist
    have hwf := h.wellFormed
    cases c with
    | notFound => exact absurd hlist (by simp [HandlerCondition.text])
    | sqlException => exact absurd hlist (by simp [HandlerCondition.text])
    | sqlWarning => exact absurd hlist (by simp [HandlerCondition.text])
    | sqlstate state' =>
      have hsome := (h.resolved trivial scopes state').mpr rfl
      rw [hopen] at hsome
      cases hsome
    | packed state' => exact absurd hlist (by simp [HandlerCondition.text, String.toList_append])
    | named name =>
      have hcolon : ':' ∈ name.toList := by
        change name.toList = _ at hlist
        rw [hlist]
        simp
      exact absurd (hwf.1 ':' hcolon) (by decide)
    | delimited name => exact absurd hlist (by simp [HandlerCondition.text, String.toList_append])

theorem handlerApplies_eq {stmt : Statement}
    (hsettled : Settled region) (h : region.resolvedSqlstate = some state) :
    handlerApplies region stmt = isSourceOf state stmt := by
  rw [handlerApplies, isSourceOf]
  by_cases hstate : state = "02000"
  · subst hstate
    rw [if_pos (.inl h), if_pos rfl]
  · have hnot : ¬(region.resolvedSqlstate = some "02000" ∨
        Text.normalized region.handledConditionText = "NOT FOUND") := by
      rintro (heq | heq)
      · rw [h] at heq
        exact hstate (Option.some.inj heq)
      · rw [hsettled.notFound heq] at h
        exact hstate (Option.some.inj h).symm
    rw [if_neg hnot, if_neg hstate]
    split
    · rfl
    · rw [if_pos (.inl (by rw [h]; rfl))]

theorem handlerConditionKey_iff (hsettled : Settled region) :
    handlerConditionKey region = "SQLSTATE:" ++ state ↔ region.resolvedSqlstate = some state := by
  unfold handlerConditionKey
  cases h : region.resolvedSqlstate with
  | some state' =>
    constructor
    · intro heq
      have hlist := congrArg String.toList heq
      rw [String.toList_append, String.toList_append] at hlist
      rw [String.toList_injective (List.append_cancel_left hlist)]
    · intro heq
      rw [Option.some.inj heq]
  | none => exact ⟨fun heq => absurd heq (hsettled.open_key h state), nofun⟩

/-- A handler is kept iff it is the first with its condition. -/
theorem mem_firstPerKey_iff {h : Handler} {handlers : List Handler} {seen : List String} :
    h ∈ firstPerKey seen handlers ↔ handlerConditionKey h.region ∉ seen ∧
      handlers.find? (fun h' => handlerConditionKey h'.region = handlerConditionKey h.region) =
      some h := by
  induction handlers generalizing seen with
  | nil => simp [firstPerKey]
  | cons h' handlers ih =>
    rw [firstPerKey, List.find?_cons]
    by_cases hkey : handlerConditionKey h'.region = handlerConditionKey h.region
    · rw [decide_eq_true hkey]
      split
      · next hseen =>
          rw [ih]
          rw [hkey] at hseen
          exact ⟨fun hfound => absurd hseen hfound.1, fun hfound => absurd hseen hfound.1⟩
      · next hseen =>
          rw [hkey] at hseen
          rw [List.mem_cons, ih]
          constructor
          · rintro (rfl | ⟨hnew, -⟩)
            · exact ⟨hseen, rfl⟩
            · exact absurd (by rw [hkey]; exact List.mem_cons_self) hnew
          · rintro ⟨-, heq⟩
            exact .inl (Option.some.inj heq).symm
    · rw [decide_eq_false hkey]
      split
      · rw [ih]
      · rw [List.mem_cons, ih, List.mem_cons, not_or]
        constructor
        · rintro (rfl | ⟨⟨-, hseen⟩, hfound⟩)
          · exact absurd rfl hkey
          · exact ⟨hseen, hfound⟩
        · rintro ⟨hseen, hfound⟩
          exact .inr ⟨⟨Ne.symm hkey, hseen⟩, hfound⟩

variable {scopes : List (List Handler)}

/-- A handler for a SQLSTATE is picked iff the statement is a source of it and the handler is the
first one for it. -/
theorem mem_boundHandlers {stmt : Statement} {h : Handler}
    (hsettled : ∀ scope ∈ scopes, ∀ h' ∈ scope, Settled h'.region)
    (hmem : h ∈ scopes.flatten) (hstate : h.region.resolvedSqlstate = some state) :
    h ∈ boundHandlers scopes stmt ↔ isSourceOf state stmt = true ∧
      scopes.flatten.find? (fun h' => h'.region.resolvedSqlstate = some state) = some h := by
  have hall : ∀ h' ∈ scopes.flatten, Settled h'.region := by
    intro h' hh'
    obtain ⟨scope, hscope, hh'⟩ := List.mem_flatten.mp hh'
    exact hsettled scope hscope h' hh'
  have hkey : handlerConditionKey h.region = "SQLSTATE:" ++ state :=
    (handlerConditionKey_iff (hall h hmem)).mpr hstate
  have hsame : ∀ h' ∈ scopes.flatten,
      decide (handlerApplies h'.region stmt = true ∧
          decide (handlerConditionKey h'.region = "SQLSTATE:" ++ state) = true) =
        (isSourceOf state stmt && decide (h'.region.resolvedSqlstate = some state)) := by
    intro h' hh'
    rw [Bool.eq_iff_iff, Bool.and_eq_true, decide_eq_true_eq, decide_eq_true_eq, decide_eq_true_eq,
      handlerConditionKey_iff (hall h' hh')]
    refine and_congr_left fun hstate' => ?_
    rw [handlerApplies_eq (hall h' hh') hstate']
  rw [boundHandlers, mem_firstPerKey_iff, List.find?_filter, hkey, List.find?_congr hsame]
  cases isSourceOf state stmt with
  | true => simp
  | false =>
    have hnone : scopes.flatten.find? (fun h' =>
        false && decide (h'.region.resolvedSqlstate = some state)) = none := by
      rw [List.find?_eq_none]
      exact fun _ _ => Bool.false_ne_true
    rw [hnone]
    simp

theorem innermost_iff {declared : Declared} {h : Handler} (hstands : ∀ scope ∈ scopes, ∀ h' ∈ scope,
      (h'.region.resolvedSqlstate = some state ↔ StandsFor declared ast h' state)) :
    scopes.flatten.find? (fun h' => h'.region.resolvedSqlstate = some state) = some h ↔
      Innermost declared ast scopes state h := by
  rw [List.find?_flatten_eq_some_iff]
  constructor
  · rintro ⟨hstate, inner, before, after, outer, rfl, hinner, hbefore⟩
    have hscope := hstands (before ++ h :: after) (by simp)
    refine ⟨inner, before, after, outer, rfl, fun scope hmem h' hh' => ?_, fun h' hh' => ?_, ?_⟩
    · rw [← hstands scope (by simp [hmem]) h' hh']
      simpa using hinner scope hmem h' hh'
    · rw [← hscope h' (by simp [hh'])]
      simpa using hbefore h' hh'
    · exact (hscope h (by simp)).mp (by simpa using hstate)
  · rintro ⟨inner, before, after, outer, rfl, hinner, hbefore, hstate⟩
    have hscope := hstands (before ++ h :: after) (by simp)
    refine ⟨?_, inner, before, after, outer, rfl, fun scope hmem h' hh' => ?_, fun h' hh' => ?_⟩
    · exact decide_eq_true ((hscope h (by simp)).mpr hstate)
    · have hnot := hinner scope hmem h' hh'
      rw [← hstands scope (by simp [hmem]) h' hh'] at hnot
      simpa using hnot
    · have hnot := hbefore h' hh'
      rw [← hscope h' (by simp [hh'])] at hnot
      simpa using hnot

/-! ## Bindings -/

/-- The graph binds the statement to the handler. -/
def Bound (ast : ProcedureAst) (s : StatementSite) (h : Handler) : Prop :=
  ∃ b ∈ (ControlFlowGraph.build ast).handlerBindings, b.sourceRef = s.id ∧ b.handler = h

theorem site_unique {s s' : StatementSite} (hs : s ∈ statementSites ast.body [])
    (hs' : s' ∈ statementSites ast.body []) (hid : s.id = s'.id) : s = s' := by
  have hids : ((statementSites ast.body []).map StatementSite.id).Nodup := by
    have h := statements_nodup ast
    rw [← statementSites_statements ast.body [], List.map_map] at h
    exact h
  exact List.inj_on_of_nodup_map hids hs hs' hid

theorem bound_iff {h : Handler}
    (hs : s ∈ statementSites ast.body []) : Bound ast s h ↔ BoundTo ast s h := by
  constructor
  · rintro ⟨b, hb, hsource, rfl⟩
    obtain ⟨s', hs', houtside, hb'⟩ := seqBindings_site (p := []) hb rfl
    obtain ⟨h, hbound, rfl⟩ := List.mem_map.mp hb'
    obtain rfl := site_unique hs hs' hsource.symm
    exact ⟨hs, houtside, hbound⟩
  · rintro ⟨-, houtside, hbound⟩
    let b : HandlerFlowBinding :=
      ⟨s.id, h, bindingContinuation (normalSuccessors (structuralEdges ast)) s.id h⟩
    have hb : b ∈ sourceBindings (normalSuccessors (structuralEdges ast))
        (scopesAround ast s.around) s.id s.stmt := List.mem_map.mpr ⟨h, hbound, rfl⟩
    exact ⟨b, statementSites_bindings (p := []) hs houtside hb, rfl, rfl⟩

section Selection

variable {declared : Declared} {ast : ProcedureAst}

/-- Every handler is written with a condition of the grammar. -/
def AllWritten (declared : Declared) (ast : ProcedureAst) : Prop :=
  ∀ site ∈ procedureConditions declared ast, ∃ c, Written site.region c

variable {h : Handler} {s : StatementSite} {state : String} {globalAggregate : NodeRef → Bool}

theorem exists_site (hh : h ∈ handlersOf (resolveNamedConditions declared ast).body) :
    ∃ site ∈ procedureConditions declared ast, site.id = h.id ∧
      resolvedRegion site.scopes site.region = h.region := by
  have hmap := resolveSeq_handlers declared [seqConditions declared ast.body] ast.body
  have hmem : (h.id, h.region) ∈ (procedureConditions declared ast).map fun c =>
      (c.id, resolvedRegion c.scopes c.region) := by
    rw [procedureConditions, ← hmap]
    exact List.mem_map_of_mem hh
  obtain ⟨site, hsite, heq⟩ := List.mem_map.mp hmem
  exact ⟨site, hsite, (Prod.mk.inj heq).1, (Prod.mk.inj heq).2⟩

theorem exists_handler {site : ConditionSite} (hsite : site ∈ procedureConditions declared ast) :
    ∃ h ∈ handlersOf (resolveNamedConditions declared ast).body, h.id = site.id ∧
      h.region = resolvedRegion site.scopes site.region := by
  have hmap := resolveSeq_handlers declared [seqConditions declared ast.body] ast.body
  have hmem : (site.id, resolvedRegion site.scopes site.region) ∈
      (handlersOf (resolveNamedConditions declared ast).body).map fun h => (h.id, h.region) := by
    show _ ∈ (handlersOf (resolveSeq declared [seqConditions declared ast.body] ast.body)).map _
    rw [hmap]
    exact List.mem_map_of_mem hsite
  obtain ⟨h, hh, heq⟩ := List.mem_map.mp hmem
  exact ⟨h, hh, (Prod.mk.inj heq).1, (Prod.mk.inj heq).2⟩

/-- A SQLSTATE is resolved for the handlers whose conditions stand for it and are written as
expected. -/
theorem resolved_iff (hwritten : AllWritten declared ast)
    (hh : h ∈ handlersOf (resolveNamedConditions declared ast).body) (state : String) :
    h.region.resolvedSqlstate = some state ↔ ReadAs declared ast h state := by
  constructor
  · intro hstate
    obtain ⟨site, hsite, hid, hregion⟩ := exists_site hh
    obtain ⟨c, hc⟩ := hwritten site hsite
    rw [← hregion] at hstate
    by_cases hread : c.ReadRight
    · exact ⟨site, hsite, hid, c, hc, hread, (hc.resolved hread site.scopes state).mp hstate⟩
    · rw [hc.misread hread site.scopes] at hstate
      cases hstate
  · rintro ⟨site, hsite, hid, c, hc, hread, hdenotes⟩
    obtain ⟨h', hh', hid', hregion⟩ := exists_handler hsite
    obtain rfl := handler_unique hh hh' (hid.symm.trans hid'.symm)
    rw [hregion]
    exact (hc.resolved hread site.scopes state).mpr hdenotes

theorem ReadAs.standsFor (h' : ReadAs declared ast h state) :
    StandsFor declared ast h state := by
  obtain ⟨site, hsite, hid, c, hc, -, hdenotes⟩ := h'
  exact ⟨site, hsite, hid, c, hc, hdenotes⟩

/-- Of the handlers of the scopes, those that stand for the SQLSTATE are written as expected. -/
def ReadAround (declared : Declared) (ast : ProcedureAst) (scopes : List (List Handler))
    (state : String) : Prop :=
  ∀ scope ∈ scopes, ∀ h ∈ scope, StandsFor declared ast h state → ReadAs declared ast h state

theorem settled_of_mem (hwritten : AllWritten declared ast)
    (hh : h ∈ handlersOf (resolveNamedConditions declared ast).body) : Settled h.region := by
  obtain ⟨site, hsite, -, hregion⟩ := exists_site hh
  obtain ⟨c, hc⟩ := hwritten site hsite
  rw [← hregion]
  exact settled_of_written hc site.scopes

theorem bound_handler_mem (hs : s ∈ statementSites ast.body [])
    (hbound : Bound ast s h) : h ∈ handlersOf ast.body := by
  have hscopes : ScopesIn ast s.around := by
    refine statementSites_scopes hs (List.Subset.refl _) fun scope hscope => ?_
    rw [List.mem_singleton.mp hscope]
    exact scopeHandlersOf_subset _
  obtain ⟨-, -, hpicked⟩ := (bound_iff hs).mp hbound
  have hfind := (mem_firstPerKey_iff.mp hpicked).2
  have hmem := (List.mem_filter.mp (List.mem_of_find?_eq_some hfind)).1
  obtain ⟨scope, hscope, hh⟩ := List.mem_flatten.mp hmem
  exact hscopes scope hscope hh

/-- A statement is bound to a handler for a SQLSTATE iff it is outside the bodies of handlers, is a
source of the SQLSTATE, and the handler is the innermost one for it. -/
theorem bound_iff_innermost (hwritten : AllWritten declared ast)
    (hs : s ∈ statementSites (resolveNamedConditions declared ast).body [])
    (hread : ReadAround declared ast
      (scopesAround (resolveNamedConditions declared ast) s.around) state)
    (hstands : StandsFor declared ast h state) :
    Bound (resolveNamedConditions declared ast) s h ↔ outsideHandlers s.around = true ∧
      isSourceOf state s.stmt = true ∧
        Innermost declared ast (scopesAround (resolveNamedConditions declared ast) s.around)
        state h := by
  have hscopes : ScopesIn (resolveNamedConditions declared ast) s.around := by
    refine statementSites_scopes hs (List.Subset.refl _) fun scope hscope => ?_
    rw [List.mem_singleton.mp hscope]
    exact scopeHandlersOf_subset _
  have hsettled : ∀ scope ∈ scopesAround (resolveNamedConditions declared ast) s.around,
    ∀ h' ∈ scope,
      Settled h'.region :=
      fun scope hscope h' hh' => settled_of_mem hwritten (hscopes scope hscope hh')
  have hresolved : ∀ scope ∈ scopesAround (resolveNamedConditions declared ast) s.around,
    ∀ h' ∈ scope,
      (h'.region.resolvedSqlstate = some state ↔ StandsFor declared ast h' state) := by
    intro scope hscope h' hh'
    rw [resolved_iff hwritten (hscopes scope hscope hh') state]
    exact ⟨ReadAs.standsFor, hread scope hscope h' hh'⟩
  rw [bound_iff hs, BoundTo, ← innermost_iff hresolved]
  constructor
  · rintro ⟨-, houtside, hbound⟩
    have hmem : h ∈ (scopesAround (resolveNamedConditions declared ast) s.around).flatten := by
      have := mem_firstPerKey_iff.mp hbound
      exact (List.mem_filter.mp (List.mem_of_find?_eq_some this.2)).1
    obtain ⟨scope, hscope, hh⟩ := List.mem_flatten.mp hmem
    have hstate := (hresolved scope hscope h hh).mpr hstands
    exact ⟨houtside, (mem_boundHandlers hsettled hmem hstate).mp hbound⟩
  · rintro ⟨houtside, hsource, hfind⟩
    have hmem := List.mem_of_find?_eq_some hfind
    have hstate : h.region.resolvedSqlstate = some state := by simpa using List.find?_some hfind
    exact ⟨hs, houtside, (mem_boundHandlers hsettled hmem hstate).mpr ⟨hsource, hfind⟩⟩

theorem Innermost.standsFor
    (hinnermost : Innermost declared ast scopes state h) : StandsFor declared ast h state := by
  obtain ⟨-, -, -, -, -, -, -, hstands⟩ := hinnermost
  exact hstands

/-! ## The handlers that should be picked -/

/-- The handlers of the scopes around a position, inside handlers too; the body of a handler is
outside its scope. -/
def visibleScopes (ast : ProcedureAst) : List Around → List (List Handler)
  | [] => procedureScopes ast
  | .block _ scope _ :: p => scope :: visibleScopes ast p
  | .handler h :: p =>
    scopeHandlersOf h.body :: (visibleScopes ast p).map (·.filter fun h' => h'.id ≠ h.id)
  | _ :: p => visibleScopes ast p

theorem visibleScopes_outside {p : List Around} (h : outsideHandlers p = true) :
    visibleScopes ast p = scopesAround ast p := by
  induction p with
  | nil => rfl
  | cons a p ih =>
    cases a with
    | handler => cases h
    | block label scope rest => exact congrArg (scope :: ·) (ih h)
    | _ => exact ih h

/-- Of the handlers for the SQLSTATE the statement is bound to the innermost one, and to no
other. -/
def BoundRightly (declared : Declared) (ast : ProcedureAst) (s : StatementSite) (state : String) :
    Prop :=
  ∀ h, StandsFor declared ast h state → (Bound (resolveNamedConditions declared ast) s h ↔
    Innermost declared ast (visibleScopes (resolveNamedConditions declared ast) s.around) state h)

/-- If there is a handler for the SQLSTATE around the statement, then the statement is outside the
bodies of handlers and a source of the SQLSTATE. -/
def Bindable (declared : Declared) (ast : ProcedureAst) (s : StatementSite) (state : String) :
    Prop :=
  ∀ h,
    Innermost declared ast (visibleScopes (resolveNamedConditions declared ast) s.around) state h →
    outsideHandlers s.around = true ∧ isSourceOf state s.stmt = true

theorem boundRightly_iff (hwritten : AllWritten declared ast)
    (hs : s ∈ statementSites (resolveNamedConditions declared ast).body [])
    (hread : ReadAround declared ast
      (visibleScopes (resolveNamedConditions declared ast) s.around) state) :
    BoundRightly declared ast s state ↔ Bindable declared ast s state := by
  by_cases houtside : outsideHandlers s.around = true
  · have hbound : ∀ h, StandsFor declared ast h state →
        (Bound (resolveNamedConditions declared ast) s h ↔ isSourceOf state s.stmt = true ∧
          Innermost declared ast (visibleScopes (resolveNamedConditions declared ast) s.around)
          state h) := by
      intro h hstands
      rw [visibleScopes_outside houtside] at hread ⊢
      rw [bound_iff_innermost hwritten hs hread hstands]
      exact and_iff_right houtside
    constructor
    · intro hright h hinnermost
      exact ⟨houtside, ((hbound h hinnermost.standsFor).mp
        ((hright h hinnermost.standsFor).mpr hinnermost)).1⟩
    · intro hbindable h hstands
      rw [hbound h hstands]
      exact ⟨And.right, fun hinnermost => ⟨(hbindable h hinnermost).2, hinnermost⟩⟩
  -- inside the body of a handler the statement is bound to nothing
  · have hnone : ∀ h, ¬ Bound (resolveNamedConditions declared ast) s h := by
      intro h hbound
      obtain ⟨-, hout, -⟩ := (bound_iff hs).mp hbound
      exact houtside hout
    constructor
    · intro hright h hinnermost
      exact absurd ((hright h hinnermost.standsFor).mpr hinnermost) (hnone h)
    · intro hbindable h _
      exact iff_of_false (hnone h) fun hinnermost => houtside (hbindable h hinnermost).1

/-! ## Coverage -/

/-- The statement is reported as covered. -/
def ReportedCovered (globalAggregate : NodeRef → Bool) (ast : ProcedureAst) (id : NodeRef) : Prop :=
  ∃ fact ∈ handlerCoverage globalAggregate ast (.build ast), fact.sourceRef = id ∧
    fact.status = .covered

theorem coverageFact_sourceRef (bindings : List HandlerFlowBinding) (id : NodeRef) :
    (coverageFact bindings id).sourceRef = id := by
  unfold coverageFact
  split
  · rfl
  · rfl

theorem coverageFact_covered {bindings : List HandlerFlowBinding} {id : NodeRef} :
    (coverageFact bindings id).status = .covered ↔ ∃ b, b ∈ notFoundBindings bindings id := by
  unfold coverageFact
  split
  · next h => simp [h]
  · next b _ h => exact ⟨fun _ => ⟨b, by rw [h]; exact List.mem_cons_self⟩, fun _ => rfl⟩

theorem reportedCovered_iff
    (hs : s ∈ statementSites ast.body [])
    (hraise : mayRaiseNotFound globalAggregate s.id s.stmt = true) :
    ReportedCovered globalAggregate ast s.id ↔
      ∃ b, b ∈ notFoundBindings (ControlFlowGraph.build ast).handlerBindings s.id := by
  have hstatement : (s.id, s.stmt) ∈ statementsOf ast.body := by
    rw [← statementSites_statements ast.body []]
    exact List.mem_map_of_mem (f := fun s : StatementSite => (s.id, s.stmt)) hs
  rw [← coverageFact_covered]
  constructor
  · rintro ⟨fact, hfact, hsource, hstatus⟩
    obtain ⟨statement, -, rfl⟩ := List.mem_map.mp hfact
    rw [coverageFact_sourceRef] at hsource
    rwa [hsource] at hstatus
  · intro hstatus
    exact ⟨_, List.mem_map.mpr ⟨(s.id, s.stmt), List.mem_filter.mpr ⟨hstatement, hraise⟩, rfl⟩,
      coverageFact_sourceRef _ _, hstatus⟩

/-- The statement is reported as covered iff a handler for NOT FOUND is declared around it. -/
def CoveredRightly (declared : Declared) (ast : ProcedureAst) (globalAggregate : NodeRef → Bool)
    (s : StatementSite) : Prop :=
  ReportedCovered globalAggregate (resolveNamedConditions declared ast) s.id ↔
    ∃ h,
    Innermost declared ast (visibleScopes (resolveNamedConditions declared ast) s.around) "02000" h

/-- A statement is reported as covered iff it is bound to a handler for NOT FOUND. -/
theorem reportedCovered_iff_bound (hwritten : AllWritten declared ast)
    (hs : s ∈ statementSites (resolveNamedConditions declared ast).body [])
    (hraise : mayRaiseNotFound globalAggregate s.id s.stmt = true) :
    ReportedCovered globalAggregate (resolveNamedConditions declared ast) s.id ↔
      ∃ h, Bound (resolveNamedConditions declared ast) s h ∧ ReadAs declared ast h "02000" := by
  rw [reportedCovered_iff hs hraise]
  constructor
  · rintro ⟨b, hb⟩
    obtain ⟨hb, hcondition⟩ := List.mem_filter.mp hb
    rw [Bool.and_eq_true, decide_eq_true_eq, Bool.or_eq_true, decide_eq_true_eq,
      decide_eq_true_eq] at hcondition
    have hbound : Bound (resolveNamedConditions declared ast) s b.handler :=
      ⟨b, hb, hcondition.1, rfl⟩
    have hmem := bound_handler_mem hs hbound
    have hstate : b.handler.region.resolvedSqlstate = some "02000" := by
      rcases hcondition.2 with hnormalized | hstate
      · exact (settled_of_mem hwritten hmem).notFound hnormalized
      · exact hstate
    exact ⟨_, hbound, (resolved_iff hwritten hmem _).mp hstate⟩
  · rintro ⟨h, hbound, hread⟩
    have hmem := bound_handler_mem hs hbound
    obtain ⟨b, hb, hsource, rfl⟩ := hbound
    refine ⟨b, List.mem_filter.mpr ⟨hb, ?_⟩⟩
    rw [Bool.and_eq_true, Bool.or_eq_true]
    exact ⟨decide_eq_true hsource, .inr (decide_eq_true ((resolved_iff hwritten hmem _).mpr hread))⟩

/-- Such a statement is covered rightly iff it can be bound. -/
theorem coveredRightly_iff (hwritten : AllWritten declared ast)
    (hs : s ∈ statementSites (resolveNamedConditions declared ast).body [])
    (hraise : mayRaiseNotFound globalAggregate s.id s.stmt = true)
    (hread : ReadAround declared ast
      (visibleScopes (resolveNamedConditions declared ast) s.around) "02000") :
    CoveredRightly declared ast globalAggregate s ↔ Bindable declared ast s "02000" := by
  rw [CoveredRightly, reportedCovered_iff_bound hwritten hs hraise]
  by_cases houtside : outsideHandlers s.around = true
  · have hbound : (∃ h, Bound (resolveNamedConditions declared ast) s h ∧
      ReadAs declared ast h "02000") ↔
        ∃ h,
        Innermost declared ast
          (visibleScopes (resolveNamedConditions declared ast) s.around) "02000" h ∧
          isSourceOf "02000" s.stmt = true := by
      rw [visibleScopes_outside houtside] at hread ⊢
      constructor
      · rintro ⟨h, hbound, hreadAs⟩
        obtain ⟨-, hsource, hinnermost⟩ :=
          (bound_iff_innermost hwritten hs hread hreadAs.standsFor).mp hbound
        exact ⟨h, hinnermost, hsource⟩
      · rintro ⟨h, hinnermost, hsource⟩
        have hbound := (bound_iff_innermost hwritten hs hread hinnermost.standsFor).mpr
          ⟨houtside, hsource, hinnermost⟩
        obtain ⟨inner, before, after, outer, heq, -, -, hstands⟩ := hinnermost
        exact ⟨h, hbound, hread (before ++ h :: after) (by simp [heq]) h (by simp) hstands⟩
    rw [hbound]
    constructor
    · intro hiff h hinnermost
      obtain ⟨_, _, hsource⟩ := hiff.mpr ⟨h, hinnermost⟩
      exact ⟨houtside, hsource⟩
    · intro hbindable
      exact ⟨fun ⟨h, hinnermost, _⟩ => ⟨h, hinnermost⟩,
        fun ⟨h, hinnermost⟩ => ⟨h, hinnermost, (hbindable h hinnermost).2⟩⟩
  · have hnone : ¬ ∃ h, Bound (resolveNamedConditions declared ast) s h ∧
      ReadAs declared ast h "02000" := by
      rintro ⟨h, hbound, -⟩
      obtain ⟨-, hout, -⟩ := (bound_iff hs).mp hbound
      exact houtside hout
    rw [iff_false_left hnone, not_exists]
    exact forall_congr' fun h => ⟨fun hnot hinnermost => absurd hinnermost hnot,
      fun hbindable hinnermost => houtside (hbindable hinnermost).1⟩

end Selection

/-- **Handler selection**: a statement is bound to the innermost handler for a SQLSTATE, and to no
other one for it, iff it is outside the bodies of handlers and a source of the SQLSTATE for the
graph builder, where there is a handler for it at all; and a statement that may raise NOT FOUND is
reported as covered rightly iff this holds for `02000`. Of the handlers around the statement those
for the SQLSTATE are written as the resolution expects. -/
theorem handler_selection (declared : Declared) (ast : ProcedureAst)
    (hwritten : AllWritten declared ast) (globalAggregate : NodeRef → Bool) (s : StatementSite)
    (hs : s ∈ statementSites (resolveNamedConditions declared ast).body []) (state : String)
    (hread : ReadAround declared ast
      (visibleScopes (resolveNamedConditions declared ast) s.around) state) :
    (BoundRightly declared ast s state ↔ Bindable declared ast s state) ∧
    (state = "02000" → mayRaiseNotFound globalAggregate s.id s.stmt = true →
      (CoveredRightly declared ast globalAggregate s ↔ Bindable declared ast s state)) := by
  refine ⟨boundRightly_iff hwritten hs hread, ?_⟩
  rintro rfl hraise
  exact coveredRightly_iff hwritten hs hraise hread

def duplicateKey : Handler :=
  ⟨"duplicate", { handlerKind := .exit, handledConditionText := "SQLSTATE '23505'" }, []⟩

def insertLog : Statement := { kind := .dml, text := "INSERT INTO LOG VALUES (1)" }

/-- An `INSERT` under its own handler, in a compound. -/
def guardedInsert : List Node :=
  [.compound "block" none "BEGIN"
    [.handler duplicateKey.id duplicateKey.region duplicateKey.body, .simple "insert" insertLog]]

/-- The compound is the body of the procedure. -/
def insertInBody : ProcedureAst where
  nodeId := "procedure"
  parameters := []
  commitOnReturn := none
  body := guardedInsert
  distinct := by decide

theorem written_duplicateKey : Written duplicateKey.region (.sqlstate "23505") where
  text := by decide +kernel
  wellFormed := by
    show ∀ c ∈ ['2', '3', '5', '0', '5'], c.isAlphanum = true
    exact List.all_eq_true.mp (by decide)

/-- In the body of the procedure the `INSERT` is bound to its handler. -/
theorem handler_selection_insert :
    BoundRightly (fun _ => none) insertInBody ⟨"insert", insertLog, [],
      [.block none [⟨duplicateKey.id,
      resolvedRegion [[], []] duplicateKey.region, []⟩] []]⟩ "23505" := by
  have hsites : procedureConditions (fun _ => none) insertInBody =
      [⟨duplicateKey.id, duplicateKey.region, [[], []]⟩] := rfl
  have hwritten : AllWritten (fun _ => none) insertInBody := by
    intro site hsite
    rw [hsites, List.mem_singleton] at hsite
    rw [hsite]
    exact ⟨_, written_duplicateKey⟩
  refine ((handler_selection (fun _ => none) insertInBody hwritten (fun _ => false) _
    List.mem_cons_self "23505" ?_).1).mpr fun _ _ => ⟨rfl, by decide⟩
  rintro scope - h - ⟨site, hsite, hid, c, -, hdenotes⟩
  have hsite' := hsite
  rw [hsites, List.mem_singleton] at hsite'
  refine ⟨site, hsite, hid, .sqlstate "23505", ?_, trivial, rfl⟩
  rw [hsite']
  exact written_duplicateKey

/-- `EXECUTE S INTO V` on two lines, under a handler for NOT FOUND. -/
def executeInto : Statement where
  kind := .execute
  text := "EXECUTE S\nINTO V"
  execute :=
    some { executionKind := .prepared, statementName := some "S", intoTargetNames := ["V"] }

def guardedExecute : ProcedureAst where
  nodeId := "procedure"
  parameters := []
  commitOnReturn := none
  body :=
    [.handler "notFound" { handlerKind := .exit, handledConditionText := "NOT FOUND" } [],
     .simple "execute" executeInto]
  distinct := by decide

/-- It may raise NOT FOUND, by the coverage analysis itself, and is bound to nothing and reported as
not covered. -/
theorem guardedExecute_missing :
    mayRaiseNotFound (fun _ => false) "execute" executeInto = true ∧
      ¬ ∃ s ∈ statementSites (resolveNamedConditions (fun _ => none) guardedExecute).body [],
        CoveredRightly (fun _ => none) guardedExecute (fun _ => false) s := by
  refine ⟨by decide, ?_⟩
  rintro ⟨s, hs, hright⟩
  obtain rfl := List.mem_singleton.mp hs
  let notFound : Handler :=
    ⟨"notFound",
      resolvedRegion [[]] { handlerKind := .exit, handledConditionText := "NOT FOUND" }, []⟩
  have hstands : StandsFor (fun _ => none) guardedExecute notFound "02000" :=
    ⟨⟨"notFound", { handlerKind := .exit, handledConditionText := "NOT FOUND" }, [[]]⟩,
      List.mem_singleton_self _, rfl, .notFound, ⟨by decide +kernel, trivial⟩, rfl⟩
  have hinnermost : Innermost (fun _ => none) guardedExecute
      (visibleScopes (resolveNamedConditions (fun _ => none) guardedExecute) []) "02000" notFound :=
    ⟨[], [], [], [], rfl, nofun, nofun, hstands⟩
  obtain ⟨fact, hfact, -, hstatus⟩ := hright.mpr ⟨_, hinnermost⟩
  have hmissing :
    (handlerCoverage (fun _ => false) (resolveNamedConditions (fun _ => none) guardedExecute)
      (.build (resolveNamedConditions (fun _ => none) guardedExecute))).all
      (fun fact => decide (fact.status = .missing)) = true := by decide +kernel
  have hfound := of_decide_eq_true (List.all_eq_true.mp hmissing fact hfact)
  rw [hstatus] at hfound
  cases hfound

end AtlasDb.Semantics
