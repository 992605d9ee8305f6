import AtlasDb.Analysis.Solver
import AtlasDb.Semantics.HandlerFree
import AtlasDb.Semantics.Writes

/-!
# The last write of an output parameter

An assignment to an output parameter is classified as overwritten when it reaches neither exit in
the solution of reaching definitions. An execution whose every step the graph and the transfer along
its edges account for (`FaithfulStep`) carries its last write along in the solution, if the parser
has a binding for it; so at a normal return a last write with a binding is one that reaches the
normal exit. What they do not account for are the steps without edges (`Irregular`), a `CONTINUE`
handler that resumes after it or the statement it was called for may have written the parameter, a
binding that is none (an index of what is assigned), and a query that finds no row and is not
handled.
-/

namespace AtlasDb.Semantics

open Core Lib Parsing Analysis

/-- The parser has the statement at the node assign the symbol. -/
def Defines (ast : ProcedureAst) (symbol : String) (node : NodeRef) : Prop :=
  ∃ stmt, (node, stmt) ∈ statementsOf ast.body ∧ symbol ∈ targets stmt

/-! ## Statements by reference -/

mutual

theorem Node.statements_sublist (n : Node) : (n.statements.map Prod.fst).Sublist n.refs := by
  cases n with
  | simple => exact List.Sublist.refl _
  | compound id label text body => exact (statementsOf_sublist body).cons _
  | ifRegion id arms => exact (statementsOfArms_sublist arms).cons _
  | loop id region body => exact (statementsOf_sublist body).cons _
  | handler id region body => exact (statementsOf_sublist body).cons _

theorem statementsOf_sublist (code : List Node) :
    ((statementsOf code).map Prod.fst).Sublist (refsOf code) := by
  cases code with
  | nil => exact List.Sublist.refl _
  | cons n ns =>
    rw [statementsOf, List.map_append, refsOf]
    exact (Node.statements_sublist n).append (statementsOf_sublist ns)

theorem statementsOfArms_sublist (arms : List Arm) :
    ((statementsOfArms arms).map Prod.fst).Sublist (refsOfArms arms) := by
  cases arms with
  | nil => exact List.Sublist.refl _
  | cons a arms =>
    obtain ⟨header, body⟩ := a
    rw [statementsOfArms, List.map_append, refsOfArms]
    exact ((statementsOf_sublist body).append (statementsOfArms_sublist arms)).cons _

end

section Refs

variable {ast : ProcedureAst} {node : NodeRef} {stmt stmt' : Statement} {symbol : String}

theorem statements_nodup (ast : ProcedureAst) : ((statementsOf ast.body).map Prod.fst).Nodup :=
  (statementsOf_sublist ast.body).nodup ast.distinct

theorem statement_unique (h : (node, stmt) ∈ statementsOf ast.body)
    (h' : (node, stmt') ∈ statementsOf ast.body) : stmt = stmt' := by
  have hlookup := lookup_of_mem_of_nodup (statements_nodup ast) h
  rw [lookup_of_mem_of_nodup (statements_nodup ast) h'] at hlookup
  exact (Option.some.inj hlookup).symm

theorem cfgStatements_lookup (hnode : IsNode ast (.ast node))
    (h : (node, stmt) ∈ statementsOf ast.body) :
    (cfgStatements ast (.build ast)).lookup node = some stmt := by
  have hsublist : ((cfgStatements ast (.build ast)).map Prod.fst).Sublist
      ((statementsOf ast.body).map Prod.fst) := List.filter_sublist.map _
  refine lookup_of_mem_of_nodup (hsublist.nodup (statements_nodup ast)) ?_
  exact List.mem_filter.mpr ⟨h, decide_eq_true hnode⟩

theorem targetSites_names (ref : NodeRef) (kind : DefinitionKind) (text : Nat → String)
    (names : List String) :
    (targetSites ref kind text names).map DefinitionSite.symbolName =
    names.map Text.upperString := by
  have hfst : names.zipIdx.map Prod.fst = names := List.zipIdx_map_fst 0 names
  calc (targetSites ref kind text names).map DefinitionSite.symbolName
      = (names.zipIdx.map Prod.fst).map Text.upperString := by
        simp only [targetSites, List.map_map]
        rfl
    _ = names.map Text.upperString := by rw [hfst]

theorem nodeDefinitionSites_names (ref : NodeRef) (stmt : Statement) :
    (nodeDefinitionSites ref stmt).map DefinitionSite.symbolName = targets stmt := by
  simp only [nodeDefinitionSites, targets, List.map_append, targetSites_names]
  congr 1
  · congr 1
    · cases stmt.assignment <;> rfl
    · cases stmt.fetch with
      | none => rfl
      | some f => simp [targetSites_names]
  · cases stmt.execute with
    | none => rfl
    | some e => simp [targetSites_names]

theorem mem_targets {ref : NodeRef} :
    symbol ∈ targets stmt ↔ ∃ d ∈ nodeDefinitionSites ref stmt, d.symbolName = symbol := by
  rw [← nodeDefinitionSites_names ref, List.mem_map]

theorem defines_iff (h : (node, stmt) ∈ statementsOf ast.body) :
    Defines ast symbol node ↔ symbol ∈ targets stmt := by
  constructor
  · rintro ⟨stmt', h', hmem⟩
    rwa [statement_unique h h']
  · exact fun hmem => ⟨stmt, h, hmem⟩

end Refs

/-! ## One edge -/

section Edge

variable {ast : ProcedureAst} {e : CfgEdge} {node : NodeRef} {symbol : String} {ref : NodeRef}

/-- The reaching definitions of the graph of the procedure. -/
abbrev reachingAt (ast : ProcedureAst) (place : CfgRef) : ReachingState :=
  reaching ast (.build ast) place

abbrev ReachedAt (ast : ProcedureAst) (place : CfgRef) : Prop := Reached ast (.build ast) place

theorem isNode_of_source (he : e ∈ cfgEdges ast) (hsource : e.source = .ast node) :
    IsNode ast (.ast node) :=
  hsource ▸ (cfgEdges_join e he).1

theorem reaching_of_defines (he : e ∈ cfgEdges ast) (hsource : e.source = .ast node)
    (hkind : e.kind ≠ .handler) (hreached : ReachedAt ast (.ast node))
    (hdefines : Defines ast symbol node) : (symbol, node) ∈ reachingAt ast e.target := by
  obtain ⟨stmt, hmem, htarget⟩ := hdefines
  obtain ⟨d, hd, rfl⟩ : ∃ d ∈ nodeDefinitionSites node stmt, d.symbolName = symbol :=
    mem_targets.mp htarget
  have hlookup := cfgStatements_lookup (isNode_of_source he hsource) hmem
  refine (solve_closed he (hsource ▸ hreached)).2 ?_
  rw [transferForEdge_eq]
  have hsites : edgeSites ast (.build ast) e = nodeDefinitionSites node stmt := by
    simp [edgeSites, hsource, hlookup, hkind]
  rw [hsites]
  exact mem_applySites_self hd fun d hd => nodeDefinitionSites_source hd

theorem reaching_of_pass (he : e ∈ cfgEdges ast) (hsource : e.source = .ast node)
    (hreached : ReachedAt ast (.ast node))
    (hpass : ∀ d ∈ edgeSites ast (.build ast) e, d.symbolName ≠ symbol)
    (hmem : (symbol, ref) ∈ reachingAt ast (.ast node)) :
    (symbol, ref) ∈ reachingAt ast e.target := by
  refine (solve_closed he (hsource ▸ hreached)).2 ?_
  rw [transferForEdge_eq]
  refine mem_applySites_of_ne ?_ hpass
  rw [hsource]
  exact hmem

theorem edgeSites_of_not_defines (hsource : e.source = .ast node)
    (hdefines : ¬ Defines ast symbol node) :
    ∀ d ∈ edgeSites ast (.build ast) e, d.symbolName ≠ symbol := by
  rintro d hd rfl
  unfold edgeSites at hd
  rw [hsource] at hd
  dsimp only at hd
  split at hd
  · cases hd
  · next stmt hlookup =>
      split at hd
      · cases hd
      · refine hdefines ⟨stmt, ?_, mem_targets.mpr ⟨d, hd, rfl⟩⟩
        exact (List.mem_filter.mp (mem_of_lookup hlookup)).1

theorem reached_target (he : e ∈ cfgEdges ast) (hsource : e.source = .ast node)
    (hreached : ReachedAt ast (.ast node)) : ReachedAt ast e.target :=
  (solve_closed he (hsource ▸ hreached)).1

end Edge

/-! ## Walks carry the last write -/

/-- Every statement that the parser has assign the symbol assigns it when it completes: it has found
a row, and the symbol is not an index of what is assigned. -/
def Effective (assigned : NodeRef → List String) (ast : ProcedureAst) (symbol : String)
    (log : WriteLog) : Prop :=
  ∀ entry ∈ log, entry.1.outcome = .completed → Defines ast symbol entry.1.node →
    Writes assigned symbol entry

section Carry

variable {assigned : NodeRef → List String} {ast : ProcedureAst} {symbol : String}

/-- A walk carries the definitions it makes. -/
theorem Walk.carries {x y : CfgRef} {log : WriteLog} {P : NodeRef → Prop}
    (walk : Walk ast x (log.map Prod.fst) y)
    (hcompleted : ∀ entry ∈ log, entry.1.outcome = .completed)
    (heffective : Effective assigned ast symbol log) (hreached : ReachedAt ast x)
    (hP : ∀ ref, Defines ast symbol ref → P ref → (symbol, ref) ∈ reachingAt ast x) :
    ReachedAt ast y ∧ ∀ ref, Defines ast symbol ref →
      LastWrite assigned symbol ref log ∨ P ref ∧ (∀ entry ∈ log, ¬ Writes assigned symbol entry) →
      (symbol, ref) ∈ reachingAt ast y := by
  induction log generalizing x P with
  | nil =>
    cases walk
    refine ⟨hreached, fun ref hbound h => ?_⟩
    rcases h with h | ⟨h, -⟩
    · exact absurd h lastWrite_nil
    · exact hP ref hbound h
  | cons entry log ih =>
    obtain ⟨⟨node, outcome⟩, effect⟩ := entry
    obtain ⟨houtcome, hrest⟩ := List.forall_mem_cons.mp hcompleted
    obtain ⟨hassigned, heffective'⟩ := List.forall_mem_cons.mp heffective
    cases walk with
    | @cons e _ _ _ _ he hsource hkind walk =>
      have hreached' := reached_target he hsource hreached
      by_cases hdefines : Defines ast symbol node
      · -- the node itself is the last writer so far
        have hhere := reaching_of_defines he hsource (hkind houtcome) hreached hdefines
        obtain ⟨hy, hlast⟩ := ih (P := fun ref => ref = node) walk hrest heffective' hreached'
          (by rintro ref - rfl; exact hhere)
        refine ⟨hy, fun ref hbound h => hlast ref hbound ?_⟩
        have hwrites : Writes assigned symbol (⟨node, outcome⟩, effect) :=
          hassigned houtcome hdefines
        rcases h with h | ⟨-, hnone⟩
        · rcases lastWrite_cons h with h | ⟨hnode, -, hnone⟩
          · exact .inl h
          · exact .inr ⟨hnode.symm, hnone⟩
        · exact absurd hwrites (hnone _ List.mem_cons_self)
      · have hpass := fun ref hbound (h : P ref) => reaching_of_pass he hsource hreached
          (edgeSites_of_not_defines hsource hdefines) (hP ref hbound h)
        obtain ⟨hy, hlast⟩ := ih walk hrest heffective' hreached' hpass
        refine ⟨hy, fun ref hbound h => hlast ref hbound ?_⟩
        rcases h with h | ⟨h, hnone⟩
        · rcases lastWrite_cons h with h | ⟨rfl, -⟩
          · exact .inl h
          · exact absurd hbound hdefines
        · exact .inr ⟨h, fun entry hentry => hnone entry (List.mem_cons_of_mem _ hentry)⟩

end Carry

/-! ## Faithful steps -/

/-- The parser has neither the handler nor the statement it was called for assign the symbol. -/
def Quiet (symbol : String) (h : Handler) (source : Statement) : Prop :=
  symbol ∉ targets source ∧ ∀ s ∈ statementsOf h.body, symbol ∉ targets s.2

/-- A `CONTINUE` handler resumes that is not quiet. -/
def NoisyResume (symbol : String) (a b : Config) : Prop :=
  ∃ h source rest k, a = .run [] (.handler h source rest :: k) ∧ b = .run rest k ∧
    h.region.handlerKind = .continue ∧ ¬ Quiet symbol h source

/-- A step the graph accounts for, as far as the symbol is concerned. -/
structure FaithfulStep (collate : Char → Nat) (M : ConditionModel)
    (assigned : NodeRef → List String)
    (ast : ProcedureAst) (symbol : String) (a : Config) (log : WriteLog) (b : Config) : Prop where
  writing : WritingStep collate M ast a log b
  regular : ¬ Irregular collate ast [] a b
  quiet : ¬ NoisyResume symbol a b
  effective : Effective assigned ast symbol log

variable {ast : ProcedureAst}

theorem FaithfulStep.foreseen {collate : Char → Nat} {M : ConditionModel}
    {assigned : NodeRef → List String} {symbol : String} {a b : Config}
    {log : WriteLog} (step : FaithfulStep collate M assigned ast symbol a log b) :
    Step M (procedureScope ast) a (log.map Prod.fst) b :=
  step.writing.1.foreseen step.regular

/-- Statements bind targets as the parser lets them: a `SET`, a query, a fetch or an `EXECUTE`. -/
def BindingsFit (ast : ProcedureAst) : Prop :=
  ∀ s ∈ statementsOf ast.body, targets s.2 ≠ [] → s.2.kind = .set ∨ bindingCanFail s.2.kind = true

/-- What a step visits: nodes that complete, or a statement that raises and its handler, or a
statement that raises out of the procedure. -/
theorem Step.outcome_cases {M : ConditionModel} {a b : Config}
    {visits : List Visit} (step : Step M (procedureScope ast) a visits b) :
    (∀ v ∈ visits, v.outcome = .completed) ∨
    (∃ id stmt ns k c h, a = .run (.simple id stmt :: ns) k ∧
      b = .run h.body (.handler h stmt ns :: k) ∧ visits = [⟨id, .raised⟩, ⟨h.id, .completed⟩] ∧
      (isOrdinary stmt.kind = true ∨ isSignal stmt.kind = true) ∧
      (stmt.kind = .resignal → inHandler k = true) ∧
      Takes M (activeScopes (procedureScope ast) none k) stmt c h) ∨
    b = .escaped := by
  cases step with
  | raise hat hresignal htakes =>
    obtain ⟨rfl, hkind⟩ := hat.of_takes htakes
    exact .inr (.inl ⟨_, _, _, _, _, _, rfl, rfl, rfl, hkind, hresignal, htakes⟩)
  | escape => exact .inr (.inr rfl)
  | finish => exact .inl (by simp)
  | leaveBlock => exact .inl (by simp)
  | nextIteration => exact .inl (by simp)
  | resume => exact .inl (by simp)
  | exitBlock => exact .inl (by simp)
  | exitProcedure => exact .inl (by simp)
  | declaration => exact .inl (by simp)
  | complete => exact .inl (by simp)
  | «return» => exact .inl (by simp)
  | jump => exact .inl (by simp)
  | compound => exact .inl (by simp)
  | ifArm => exact .inl (by simp)
  | ifNoMatch => exact .inl (by simp)
  | loop => exact .inl (by simp)
  | loopBody => exact .inl (by simp)
  | loopExit => exact .inl (by simp)

/-! ## The invariant -/

/-- A last write with a binding reaches the place of the configuration, and the place where a quiet
`CONTINUE` handler will resume. -/
structure Carried (assigned : NodeRef → List String) (ast : ProcedureAst) (symbol : String)
    (log : WriteLog) (c : Config) : Prop where
  placed : Placed ast c
  reached : ReachedAt ast (pos c)
  here : ∀ ref, Defines ast symbol ref → LastWrite assigned symbol ref log →
    (symbol, ref) ∈ reachingAt ast (pos c)
  single : ∀ {h source rest k}, .handler h source rest :: k <:+ frames c → inHandler k = false
  resumes : ∀ {h source rest k}, .handler h source rest :: k <:+ frames c →
    h.region.handlerKind = .continue → isSignal source.kind = false → Quiet symbol h source →
    ReachedAt ast (seqEntry rest (contRef k)) ∧ ∀ ref, Defines ast symbol ref →
      LastWrite assigned symbol ref log → (symbol, ref) ∈ reachingAt ast (seqEntry rest (contRef k))

section Invariant

variable {collate : Char → Nat} {M : ConditionModel} {assigned : NodeRef → List String}
  {ast : ProcedureAst} {symbol : String} {log new : WriteLog} {a b : Config}

variable {h : Handler} {source : Statement} {rest : List Node} {k : List Frame}

theorem inHandler_of_handler_suffix
    {k k' : List Frame} (hsuffix : .handler h source rest :: k <:+ k') : inHandler k' = true := by
  induction k' with
  | nil => simp at hsuffix
  | cons f k' ih =>
    rcases List.suffix_cons_iff.mp hsuffix with heq | hinner
    · obtain ⟨rfl, -⟩ := List.cons.inj heq
      rfl
    · cases f with
      | block => exact ih hinner
      | loop => exact ih hinner
      | handler => rfl

theorem innermostHandler_of_suffix
    {k k' : List Frame} (hsuffix : .handler h source rest :: k <:+ k')
    (hsingle : ∀ {h source rest k}, .handler h source rest :: k <:+ k' → inHandler k = false) :
    innermostHandler k' = some h := by
  induction k' with
  | nil => simp at hsuffix
  | cons f k' ih =>
    rcases List.suffix_cons_iff.mp hsuffix with heq | hinner
    · obtain ⟨rfl, -⟩ := List.cons.inj heq
      rfl
    · have hrest := ih hinner fun h => hsingle (h.trans (List.suffix_cons _ _))
      cases f with
      | block => exact hrest
      | loop => exact hrest
      | handler h' source' rest' =>
        have hnone := hsingle (List.suffix_refl (.handler h' source' rest' :: k'))
        rw [inHandler_of_handler_suffix hinner] at hnone
        cases hnone

theorem Carried.no_write (hc : Carried assigned ast symbol log a) (hlog : LogOk ast a new)
    (hsuffix : .handler h source rest :: k <:+ frames a) (hquiet : Quiet symbol h source) :
    ∀ entry ∈ new, Writes assigned symbol entry → ¬ Defines ast symbol entry.1.node := by
  rintro entry hentry ⟨heffect, -⟩ hdefines
  obtain ⟨-, stmt, ns, k', rfl⟩ := (hlog entry hentry).1 heffect
  have hstatement : (entry.1.node, stmt) ∈ statementsOf (.simple entry.1.node stmt :: ns) := by
    simp [statementsOf, Node.statements]
  have howned := hc.placed.1.owned h (innermostHandler_of_suffix hsuffix hc.single) hstatement
  rw [defines_iff (hc.placed.1.statements hstatement)] at hdefines
  exact hquiet.2 _ howned hdefines

theorem Carried.keeps_resumes (hc : Carried assigned ast symbol log a) (hlog : LogOk ast a new)
    (hsuffix : .handler h source rest :: k <:+ frames a) (hkind : h.region.handlerKind = .continue)
    (hsource : isSignal source.kind = false) (hquiet : Quiet symbol h source) :
    ReachedAt ast (seqEntry rest (contRef k)) ∧ ∀ ref, Defines ast symbol ref →
      LastWrite assigned symbol ref (log ++ new) →
      (symbol, ref) ∈ reachingAt ast (seqEntry rest (contRef k)) := by
  obtain ⟨hreached, hlast⟩ := hc.resumes hsuffix hkind hsource hquiet
  refine ⟨hreached, fun ref hbound h => ?_⟩
  rcases lastWrite_append h with ⟨before, entry, after, rfl, rfl, hwrites, -⟩ | ⟨h, -⟩
  · exact absurd hbound (hc.no_write hlog hsuffix hquiet entry (by simp) hwrites)
  · exact hlast ref hbound h

theorem Carried.step_completed (hc : Carried assigned ast symbol log a)
    (step : FaithfulStep collate M assigned ast symbol a new b)
    (hcompleted : ∀ entry ∈ new, entry.1.outcome = .completed)
    (hframes : ∀ {h source rest k}, .handler h source rest :: k <:+ frames b →
      .handler h source rest :: k <:+ frames a) :
    Carried assigned ast symbol (log ++ new) b := by
  have hstep := step.foreseen
  obtain ⟨⟨-, hlog⟩, hregular, hquiet, heffective⟩ := step
  have hhere : ReachedAt ast (pos b) ∧ ∀ ref, Defines ast symbol ref →
      LastWrite assigned symbol ref (log ++ new) → (symbol, ref) ∈ reachingAt ast (pos b) := by
    rcases Step.walk hstep hc.placed hregular with
      hwalk | ⟨h, source, rest, k, rfl, rfl, hnil, hkind⟩
    · obtain ⟨hreached, hlast⟩ := hwalk.carries hcompleted heffective hc.reached hc.here
      exact ⟨hreached, fun ref hbound h => hlast ref hbound (lastWrite_append h)⟩
    · -- a CONTINUE handler resumes: not one for a SIGNAL, and a quiet one
      have hsource : isSignal source.kind = false := by
        by_contra hsignal
        exact hregular (.resumeSignal hkind (by simpa using hsignal))
      have hq : Quiet symbol h source := by
        by_contra hnoisy
        exact hquiet ⟨h, source, rest, k, rfl, rfl, hkind, hnoisy⟩
      exact hc.keeps_resumes hlog (List.suffix_refl _) hkind hsource hq
  exact {
    placed := StepBy.placed hstep hc.placed
    reached := hhere.1
    here := hhere.2
    single := fun h => hc.single (hframes h)
    resumes := fun hsuffix hkind hsource hq =>
      hc.keeps_resumes hlog (hframes hsuffix) hkind hsource hq }

theorem edgeSites_handler {id : NodeRef} {stmt : Statement} {e : CfgEdge} (hfit : BindingsFit ast)
    (hmem : (id, stmt) ∈ statementsOf ast.body) (hset : stmt.kind ≠ .set)
    (he : e ∈ cfgEdges ast) (hsource : e.source = .ast id) (hkind : e.kind = .handler) :
    edgeSites ast (.build ast) e = [] := by
  have hlookup := cfgStatements_lookup (isNode_of_source he hsource) hmem
  by_cases hfail : bindingCanFail stmt.kind = true
  · simp [edgeSites, hsource, hlookup, hkind, hfail]
  · have hnone : targets stmt = [] := by
      by_contra hsome
      rcases hfit _ hmem hsome with h | h
      · exact hset h
      · exact hfail h
    rw [← nodeDefinitionSites_names id] at hnone
    simpa [edgeSites, hsource, hlookup, hkind, hfail] using hnone

theorem ne_set_of_takes {scopes : List (List Handler)} {stmt : Statement} {c : M.Condition}
    (htakes : Takes M scopes stmt c h) : stmt.kind ≠ .set := by
  obtain ⟨_, _, _, _, _, -, -, ⟨-, happlies⟩, -⟩ := htakes
  intro hset
  rcases happlies with happlies | hresignal
  · simp [handlerApplies, isNotFoundSource, isSqlExceptionSource, hset] at happlies
  · rw [hset] at hresignal
    cases hresignal

/-- A raised condition carries them into the handler. -/
theorem Carried.step_raise {id : NodeRef} {stmt : Statement} {ns : List Node}
    {c : M.Condition} (hfit : BindingsFit ast)
    (hc : Carried assigned ast symbol log (.run (.simple id stmt :: ns) k))
    (step : FaithfulStep collate M assigned ast symbol (.run (.simple id stmt :: ns) k) new
      (.run h.body (.handler h stmt ns :: k)))
    (hvisits : new.map Prod.fst = [⟨id, .raised⟩, ⟨h.id, .completed⟩])
    (hkind : isOrdinary stmt.kind = true ∨ isSignal stmt.kind = true)
    (hresignal : stmt.kind = .resignal → inHandler k = true)
    (htakes : Takes M (activeScopes (procedureScope ast) none k) stmt c h) :
    Carried assigned ast symbol (log ++ new) (.run h.body (.handler h stmt ns :: k)) := by
  have hstep := step.foreseen
  obtain ⟨⟨-, hlog⟩, hregular, -, heffective⟩ := step
  have hin : inHandler k = false := by
    by_contra hin
    refine hregular (.nestedRaise (.statement ?_) (by simpa using hin))
    exact hkind.imp_right .inl
  have hstatement : (id, stmt) ∈ statementsOf ast.body :=
    hc.placed.1.statements (by simp [statementsOf, Node.statements])
  have hdecl : (Node.simple id stmt).isDeclaration = false :=
    hkind.elim (isDeclaration_of_isOrdinary id) (isDeclaration_of_isSignal id)
  have hpos : pos (.run (.simple id stmt :: ns) k) = .ast id := pos_run_simple hdecl
  have hreached := hc.reached
  have hhere := hc.here
  rw [hpos] at hreached hhere
  obtain ⟨raised, started, rfl⟩ : ∃ raised started,
      new = [(⟨id, .raised⟩, raised), (⟨h.id, .completed⟩, started)] := by
    obtain ⟨x, tail, rfl, hx, htail⟩ := List.map_eq_cons_iff.mp hvisits
    obtain ⟨y, tail, rfl, hy, hnil⟩ := List.map_eq_cons_iff.mp htail
    obtain rfl := List.map_eq_nil_iff.mp hnil
    exact ⟨x.2, y.2, by rw [← hx, ← hy]⟩
  -- the statement has written nothing
  have hraised : ¬ Writes assigned symbol (⟨id, .raised⟩, raised) := by
    rintro ⟨hassigned, -⟩
    have hcompleted := ((hlog _ List.mem_cons_self).1 hassigned).1
    cases hcompleted
  -- along the handler edge to the handler
  obtain ⟨e, he, hsource, htarget, hedge⟩ := raise_edge hc.placed hin
    (fun h => by simp [hresignal h] at hin) htakes
  have hempty := edgeSites_handler hfit hstatement (ne_set_of_takes htakes) he hsource hedge
  have hhandler : ReachedAt ast (.ast h.id) ∧ ∀ ref, Defines ast symbol ref →
      LastWrite assigned symbol ref log → (symbol, ref) ∈ reachingAt ast (.ast h.id) := by
    rw [← htarget]
    refine ⟨reached_target he hsource hreached, fun ref hbound hlast => ?_⟩
    exact reaching_of_pass he hsource hreached (by simp [hempty]) (hhere ref hbound hlast)
  -- from the handler to its body
  have hmem := activeScopes_subset hc.placed.2 htakes.mem
  have hwalk : Walk ast (.ast h.id) ([((⟨h.id, .completed⟩ : Visit), started)].map Prod.fst)
      (pos (.run h.body (.handler h stmt ns :: k))) :=
    .single (handlerBody_edge hmem) rfl (by simp) rfl
  obtain ⟨hbody, hlastBody⟩ := hwalk.carries (by simp)
    (fun entry hentry => heffective entry (List.mem_cons_of_mem _ hentry)) hhandler.1 hhandler.2
  refine ⟨StepBy.placed hstep hc.placed, hbody, fun ref hbound hlast => hlastBody ref hbound ?_,
    ?_, ?_⟩
  · rcases lastWrite_append hlast with hlast | ⟨hlast, hnone⟩
    · rcases lastWrite_cons hlast with hlast | ⟨-, hwrites, -⟩
      · exact .inl hlast
      · exact absurd hwrites hraised
    · exact .inr ⟨hlast, fun entry hentry => hnone entry (List.mem_cons_of_mem _ hentry)⟩
  · intro h' source rest k' hsuffix
    rcases List.suffix_cons_iff.mp hsuffix with heq | hsuffix
    · obtain ⟨-, rfl⟩ := List.cons.inj heq
      exact hin
    · rw [inHandler_of_handler_suffix hsuffix] at hin
      cases hin
  · intro h' source rest k' hsuffix hcontinue hsignal hquiet
    rcases List.suffix_cons_iff.mp hsuffix with heq | hsuffix
    · obtain ⟨hframe, rfl⟩ := List.cons.inj heq
      injection hframe with hh hstmt hns
      subst hh hstmt hns
      have hordinary : isOrdinary source.kind = true := hkind.resolve_right (by simp [hsignal])
      have hdefines : ¬ Defines ast symbol id := fun h =>
        hquiet.1 ((defines_iff hstatement).mp h)
      have hedge := hc.placed.1.statementEdge hdecl
      have hsource := statementEdge_source id source (seqEntry rest (contRef k')) (contexts k')
      have hnext : (statementEdge id source (seqEntry rest (contRef k')) (contexts k')).target =
          seqEntry rest (contRef k') := statementEdge_target hordinary
      rw [← hnext]
      refine ⟨reached_target hedge hsource hreached, fun ref hbound hlast => ?_⟩
      refine reaching_of_pass hedge hsource hreached (edgeSites_of_not_defines hsource hdefines) ?_
      -- only the statement itself could have written
      rcases lastWrite_append hlast
        with ⟨before, entry, after, hsplit, rfl, hwrites, -⟩ | ⟨hlast, -⟩
      · obtain ⟨-, stmt, ns, k, heq⟩ := (hlog entry (by simp [hsplit])).1 hwrites.1
        injection heq with hcode
        injection List.head_eq_of_cons_eq hcode with hid
        exact absurd hbound (hid ▸ hdefines)
      · exact hhere ref hbound hlast
    · rw [inHandler_of_handler_suffix hsuffix] at hin
      cases hin

theorem Step.handler_suffix {visits : List Visit} (step : Step M (procedureScope ast) a visits b)
    (hcompleted : ∀ v ∈ visits, v.outcome = .completed)
    (hsuffix : .handler h source rest :: k <:+ frames b) :
    .handler h source rest :: k <:+ frames a := by
  rcases step.frames_cases with hdrop | ⟨f, hpush, hf⟩ | ⟨id, stmt, ns, k', h', -, -, rfl, -⟩
  · exact hsuffix.trans hdrop
  · rw [hpush, List.suffix_cons_iff] at hsuffix
    rcases hsuffix with heq | hsuffix
    · exact absurd (List.cons.inj heq).1.symm (hf h source rest)
    · exact hsuffix
  · cases hcompleted ⟨id, .raised⟩ (by simp)

theorem Carried.step (hfit : BindingsFit ast) (hc : Carried assigned ast symbol log a)
    (step : FaithfulStep collate M assigned ast symbol a new b) :
    b = .escaped ∨ Carried assigned ast symbol (log ++ new) b := by
  rcases Step.outcome_cases step.foreseen with
    hcompleted | ⟨id, stmt, ns, k, c, h, rfl, rfl, hvisits, hkind, hresignal, htakes⟩ | hescaped
  · refine .inr (hc.step_completed step ?_ (Step.handler_suffix step.foreseen hcompleted))
    exact fun entry hentry => hcompleted entry.1 (List.mem_map_of_mem hentry)
  · exact .inr (hc.step_raise hfit step hvisits hkind hresignal htakes)
  · exact .inl hescaped

theorem carried_start (assigned : NodeRef → List String) (ast : ProcedureAst) (symbol : String) :
    Carried assigned ast symbol [] (start ast) where
  placed := placed_start ast
  reached := by
    have hentry : ReachedAt ast .entry := reached_entry
    have hedge : _ ∈ (ControlFlowGraph.build ast).edges := entry_edge_mem ast
    exact (solve_closed hedge hentry).1
  here _ _ h := absurd h lastWrite_nil
  single h := by simp [start, frames] at h
  resumes h := by simp [start, frames] at h

theorem carried_run (hfit : BindingsFit ast)
    (run : Run (FaithfulStep collate M assigned ast symbol) (start ast) log b) :
    b = .escaped ∨ Carried assigned ast symbol log b := by
  induction run with
  | refl => exact .inr (carried_start assigned ast symbol)
  | tail run last ih =>
    rcases ih with rfl | hc
    · exact absurd last.foreseen StepBy.not_escaped
    · exact hc.step hfit last

end Invariant

/-! ## Overwritten assignments -/

theorem statementEffects_not_overwritten {sites : List DynamicSqlSite}
    {variants : List DynamicSqlVariant} {ref : NodeRef} {stmt : Statement} {e : EffectCandidate}
    (h : e ∈ statementEffects ast sites variants ref stmt) :
    e.observability ≠ .overwrittenOutputAssignment := by
  unfold statementEffects assignmentEffects dynamicEffects at h
  intro hoverwritten
  rcases List.mem_append.mp h with h | h
  · grind [makeEffect]
  · grind [makeEffect]

theorem outEffect_nodeRef (solution : SolverState) (site : DefinitionSite) :
    (outEffect solution site).effectId.nodeRef = site.sourceNodeRef := by
  unfold outEffect
  dsimp only
  split
  · rfl
  · split <;> rfl

theorem outEffect_target (solution : SolverState) (site : DefinitionSite) :
    (outEffect solution site).effectId.target = some site.symbolName := by
  unfold outEffect
  dsimp only
  split
  · rfl
  · split <;> rfl

theorem outEffect_overwritten {solution : SolverState} {site : DefinitionSite}
    (h : (outEffect solution site).observability = .overwrittenOutputAssignment) :
    site.sourceNodeRef ∉ definitionsAtCfg solution .normalExit site.symbolName := by
  intro hmem
  unfold outEffect at h
  dsimp only at h
  rw [if_pos hmem] at h
  cases h

theorem overwritten_not_reaching {sites : List DynamicSqlSite}
    {variants : List DynamicSqlVariant} {e : EffectCandidate} {symbol : String}
    (he : e ∈ directEffects ast (.build ast) sites variants)
    (hoverwritten : e.observability = .overwrittenOutputAssignment)
    (htarget : e.effectId.target = some symbol) :
    Defines ast symbol e.effectId.nodeRef ∧
      (symbol, e.effectId.nodeRef) ∉ reachingAt ast .normalExit := by
  rcases List.mem_append.mp he with he | he
  · obtain ⟨site, hsite, rfl⟩ := List.mem_map.mp he
    obtain ⟨hsite, -⟩ := List.mem_filter.mp hsite
    obtain ⟨s, hs, hsite⟩ := List.mem_flatMap.mp hsite
    have hnames : site.symbolName ∈ targets s.2 := mem_targets.mpr ⟨site, hsite, rfl⟩
    obtain ⟨name, -, hname⟩ := List.mem_map.mp hnames
    have hsource := nodeDefinitionSites_source hsite
    obtain rfl : site.symbolName = symbol := by
      rw [outEffect_target] at htarget
      exact Option.some.inj htarget
    rw [outEffect_nodeRef]
    refine ⟨⟨s.2, ?_, hnames⟩, ?_⟩
    · rw [hsource]
      exact (List.mem_filter.mp hs).1
    · have hnormal := outEffect_overwritten hoverwritten
      rwa [mem_definitionsAtCfg, ← hname, Text.upperString_upperString, hname] at hnormal
  · obtain ⟨⟨ref, stmt⟩, -, he⟩ := List.mem_flatMap.mp he
    exact absurd hoverwritten (statementEffects_not_overwritten he)

/-- An assignment classified as overwritten is not the last write of an execution that returns
normally, if the graph accounts for every step of it. -/
theorem overwritten_not_last_write (collate : Char → Nat) (M : ConditionModel)
    (assigned : NodeRef → List String) (ast : ProcedureAst) (sites : List DynamicSqlSite)
    (variants : List DynamicSqlVariant) (e : EffectCandidate) (symbol : String) (log : WriteLog)
    (hfit : BindingsFit ast) (he : e ∈ directEffects ast (.build ast) sites variants)
    (hoverwritten : e.observability = .overwrittenOutputAssignment)
    (htarget : e.effectId.target = some symbol)
    (run : Run (FaithfulStep collate M assigned ast symbol) (start ast) log .returned) :
    ¬ LastWrite assigned symbol e.effectId.nodeRef log := by
  intro hlast
  rcases carried_run hfit run with hescaped | hc
  · cases hescaped
  · obtain ⟨hbound, hreaching⟩ := overwritten_not_reaching he hoverwritten htarget
    exact hreaching (hc.here _ hbound hlast)

/-! ## Procedures with a fetch -/

/-- `DECLARE CONTINUE HANDLER FOR NOT FOUND SET P_DONE = 1` -/
def markDone : Handler :=
  ⟨"handler", { handlerKind := .continue, handledConditionText := "NOT FOUND" },
    [.simple "done" { kind := .set, text := "SET P_DONE = 1", assignment := some ⟨"P_DONE", "1"⟩ }]⟩

def assignOut (text expression : String) : Statement :=
  { kind := .set, text := text, assignment := some ⟨"P_OUT", expression⟩ }

/-- `FETCH C INTO target` -/
def fetchInto (target : String) : Statement :=
  { kind := .fetchCursor, text := "FETCH C INTO " ++ target, fetch := some ⟨"C", [target]⟩ }

section Steps

variable {M : ConditionModel} {assigned : NodeRef → List String} {ast : ProcedureAst}
  {symbol : String} {id : NodeRef} {stmt : Statement} {ns : List Node} {k : List Frame}
  {a b : Config} {h : Handler}

theorem FaithfulStep.of_silent (step : RegularStep Char.toNat M ast [] a [] b)
    (hquiet : ¬ NoisyResume symbol a b) : FaithfulStep Char.toNat M assigned ast symbol a [] b where
  writing := ⟨step.1, logOk_nil ast a⟩
  regular := step.2
  quiet := hquiet
  effective := List.forall_mem_nil _

theorem not_noisyResume_cons {n : Node} : ¬ NoisyResume symbol (.run (n :: ns) k) b := by
  rintro ⟨_, _, _, _, h, -⟩
  cases h

theorem boundBy_of_defines {node : NodeRef} (h : Defines ast symbol node) :
    symbol ∈ boundBy ast node := by
  obtain ⟨stmt, hmem, htarget⟩ := h
  rw [boundBy, lookup_of_mem_of_nodup (statements_nodup ast) hmem]
  exact htarget

theorem FaithfulStep.complete (hkind : isOrdinary stmt.kind = true) :
    FaithfulStep Char.toNat M (boundBy ast) ast symbol (.run (.simple id stmt :: ns) k)
      [(⟨id, .completed⟩, true)] (.run ns k) where
  writing := ⟨.complete hkind, logOk_complete⟩
  regular := (RegularStep.complete (M := M) hkind).2
  quiet := not_noisyResume_cons
  effective := by
    intro entry hentry _ hdefines
    obtain rfl := List.mem_singleton.mp hentry
    exact ⟨rfl, boundBy_of_defines hdefines⟩

theorem FaithfulStep.raise {c : M.Condition} (hordinary : isOrdinary stmt.kind = true)
    (hin : inHandler k = false) (happlies : handlerApplies h.region stmt = true)
    (htakes : TakesBy (.sql Char.toNat) M (activeScopes (procedureScope ast) none k) stmt c h)
    (hhandler : ∀ s ∈ statementsOf ast.body, s.1 ≠ h.id) :
    FaithfulStep Char.toNat M assigned ast symbol (.run (.simple id stmt :: ns) k)
      [(⟨id, .raised⟩, false), (⟨h.id, .completed⟩, false)]
      (.run h.body (.handler h stmt ns :: k)) := by
  have hstep : RegularStep Char.toNat M ast [] (.run (.simple id stmt :: ns) k)
      [⟨id, .raised⟩, ⟨h.id, .completed⟩] (.run h.body (.handler h stmt ns :: k)) :=
    .raise hordinary hin happlies htakes
  refine ⟨⟨hstep.1, logOk_of_not_statement ?_⟩, hstep.2, not_noisyResume_cons, ?_⟩
  · intro entry hentry
    rcases List.mem_cons.mp hentry with rfl | hentry
    · exact ⟨rfl, nofun⟩
    · obtain rfl := List.mem_singleton.mp hentry
      exact ⟨rfl, fun _ => hhandler⟩
  · intro entry hentry hcompleted hdefines
    rcases List.mem_cons.mp hentry with rfl | hentry
    · cases hcompleted
    · obtain rfl := List.mem_singleton.mp hentry
      obtain ⟨stmt, hstmt, -⟩ := hdefines
      exact absurd rfl (hhandler _ hstmt)

end Steps

/-- A fetch into another variable between two assignments. -/
def assignTwice : ProcedureAst where
  nodeId := "procedure"
  parameters := [{ name := "P_OUT", mode := .out }]
  commitOnReturn := none
  body := [.handler markDone.id markDone.region markDone.body,
    .simple "first" (assignOut "SET P_OUT = 1" "1"), .simple "fetch" (fetchInto "V_ROW"),
    .simple "second" (assignOut "SET P_OUT = 2" "2")]
  distinct := by decide

/-- A fetch into the output parameter after an assignment. -/
def fetchOver : ProcedureAst where
  nodeId := "procedure"
  parameters := [{ name := "P_OUT", mode := .out }]
  commitOnReturn := none
  body := [.handler markDone.id markDone.region markDone.body,
    .simple "first" (assignOut "SET P_OUT = 1" "1"), .simple "fetch" (fetchInto "P_OUT")]
  distinct := by decide

def firstOverwritten : EffectCandidate :=
  makeEffect .outParameterAssignment "first" (some "P_OUT") (some "1")
    .overwrittenOutputAssignment []

theorem takes_markDone {target : String} (hscope : procedureScope ast = [markDone]) :
    TakesBy (.sql Char.toNat) .single (activeScopes (procedureScope ast) none []) (fetchInto target)
      () markDone :=
  ⟨[], [markDone], [], [], [], by rw [hscope]; rfl, rfl, ⟨trivial, trivial⟩, by simp, by simp⟩

theorem markDone_applies {target : String} :
    handlerApplies markDone.region (fetchInto target) = true := by
  have hnormalized : Text.normalized "NOT FOUND" = "NOT FOUND" := by decide +kernel
  simp [handlerApplies, markDone, hnormalized, fetchInto, isNotFoundSource]

def assignTwiceLog : WriteLog :=
  [(⟨"first", .completed⟩, true), (⟨"fetch", .raised⟩, false), (⟨"handler", .completed⟩, false),
    (⟨"done", .completed⟩, true), (⟨"second", .completed⟩, true)]

theorem assignTwice_run : Run (FaithfulStep Char.toNat .single (boundBy assignTwice) assignTwice
    "P_OUT") (start assignTwice) assignTwiceLog .returned := by
  have hquiet : Quiet "P_OUT" markDone (fetchInto "V_ROW") := by unfold Quiet; decide +kernel
  refine Run.head (FaithfulStep.of_silent (RegularStep.declaration rfl) not_noisyResume_cons) <|
    Run.head (FaithfulStep.complete rfl) <|
    Run.head (FaithfulStep.raise rfl rfl markDone_applies (takes_markDone rfl) (by decide)) <|
    Run.head (FaithfulStep.complete rfl) <|
    Run.head (FaithfulStep.of_silent (RegularStep.resume rfl rfl (by simp)) ?_) <|
    Run.head (FaithfulStep.complete rfl) <|
    Run.single (FaithfulStep.of_silent RegularStep.finish ?_)
  · rintro ⟨h, source, rest, k, ha, -, -, hnoisy⟩
    cases ha
    exact hnoisy hquiet
  · rintro ⟨h, source, rest, k, ha, -⟩
    cases ha

/-- The first of two assignments is not the last write, also when a fetch in between finds no
row. -/
theorem first_assignment_not_last_write :
    firstOverwritten ∈ directEffects assignTwice (.build assignTwice) [] [] ∧
    ¬ LastWrite (boundBy assignTwice) "P_OUT" "first" assignTwiceLog := by
  have hmem : firstOverwritten ∈ directEffects assignTwice (.build assignTwice) [] [] := by
    decide +kernel
  have hfit : BindingsFit assignTwice := by unfold BindingsFit; decide +kernel
  exact ⟨hmem, overwritten_not_last_write Char.toNat .single (boundBy assignTwice) assignTwice [] []
    firstOverwritten "P_OUT" assignTwiceLog hfit hmem rfl rfl assignTwice_run⟩

def fetchOverLog : WriteLog :=
  [(⟨"first", .completed⟩, true), (⟨"fetch", .raised⟩, false), (⟨"handler", .completed⟩, false),
    (⟨"done", .completed⟩, true)]

theorem fetchOver_run : Run (WritingStep Char.toNat .single fetchOver)
    (start fetchOver) fetchOverLog
    .returned := by
  have hfetch : FaithfulStep Char.toNat .single (boundBy fetchOver) fetchOver "P_OUT"
      (.run [.simple "fetch" (fetchInto "P_OUT")] [])
      [(⟨"fetch", .raised⟩, false), (⟨"handler", .completed⟩, false)]
      (.run markDone.body [.handler markDone (fetchInto "P_OUT") []]) :=
    FaithfulStep.raise rfl rfl markDone_applies (takes_markDone rfl) (by decide)
  exact Run.head (a := start fetchOver) ⟨.declaration rfl, logOk_nil _ _⟩ <|
    Run.head ⟨.complete rfl, logOk_complete⟩ <| Run.head hfetch.writing <|
    Run.head ⟨.complete rfl, logOk_complete⟩ <| Run.head ⟨.resume rfl, logOk_nil _ _⟩ <|
    Run.single ⟨.finish, logOk_nil _ _⟩

/-- The assignment is classified as overwritten by the fetch after it; the fetch finds no row, its
handler resumes, and the procedure returns what was assigned. -/
theorem first_assignment_survives_empty_fetch :
    firstOverwritten ∈ directEffects fetchOver (.build fetchOver) [] [] ∧
    ∃ log, Run (WritingStep Char.toNat .single fetchOver) (start fetchOver) log .returned ∧
      LastWrite (boundBy fetchOver) "P_OUT" firstOverwritten.effectId.nodeRef log := by
  refine ⟨by decide +kernel, fetchOverLog, fetchOver_run, [], _, _, rfl, rfl,
    ⟨rfl, by decide +kernel⟩, ?_⟩
  rintro later hlater ⟨heffect, hassigned⟩
  obtain rfl : later = (⟨"done", .completed⟩, true) := by
    clear hassigned
    revert later
    decide
  revert hassigned
  decide +kernel

end AtlasDb.Semantics
