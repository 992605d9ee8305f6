import AtlasDb.Analysis.Cfg
import Mathlib.Logic.Relation

/-!
# Where handlers continue

What `_build_handler_subgraphs` and `_bind_handlers` make of the three ways a handler goes on: after
the compound that declares it (`EXIT`, `UNDO`), after the statement that raised (`CONTINUE`), and by
a jump to a construct around it. `handler_continuation_iff` says for which procedures the graph has
all three right.

A position in the tree is described by what surrounds it (`Around`), innermost first.
-/

namespace AtlasDb.Analysis

open Core Parsing

/-! ## Positions -/

/-- One construct around a position; `rest` is what follows it in its sequence, `scope` are the
handlers a compound declares. -/
inductive Around where
  | block (label : Option String) (scope : List Handler) (rest : List Node)
  | arm (rest : List Node)
  | loop (id : NodeRef) (region : LoopRegion) (rest : List Node)
  | handler (h : Handler)

/-- Where the builder goes on at the end of the innermost sequence. -/
def endRef : List Around → CfgRef
  | [] => .normalExit
  | .block _ _ rest :: p => seqEntry rest (endRef p)
  | .arm rest :: p => seqEntry rest (endRef p)
  | .loop id _ _ :: _ => .ast id
  | .handler h :: _ => handlerFallthrough h

/-- The control stack of the builder. -/
def controlStack : List Around → List ControlContext
  | [] => []
  | .block label _ rest :: p => blockContext label (seqEntry rest (endRef p)) :: controlStack p
  | .arm _ :: p => controlStack p
  | .loop id region rest :: p => loopContext id region (seqEntry rest (endRef p)) :: controlStack p
  | .handler _ :: _ => []

/-- The continuation of the compound that declares what stands here; for the body of a handler it is
the end of that handler. -/
def compoundExit : List Around → CfgRef
  | [] => .normalExit
  | .block _ _ rest :: p => seqEntry rest (endRef p)
  | .arm _ :: p => compoundExit p
  | .loop _ _ _ :: p => compoundExit p
  | .handler h :: _ => handlerFallthrough h

/-- Nothing is executed between the end of the innermost sequence and the end of the procedure. -/
def nothingFollows : List Around → Bool
  | [] => true
  | .block _ _ rest :: p => rest.all Node.isDeclaration && nothingFollows p
  | .arm rest :: p => rest.all Node.isDeclaration && nothingFollows p
  | .loop _ _ _ :: _ => false
  | .handler h :: _ => h.region.handlerKind ≠ .continue

/-- Nothing is executed after the compound that declares what stands here. -/
def lastCompound : List Around → Bool
  | [] => true
  | .block _ _ rest :: p => rest.all Node.isDeclaration && nothingFollows p
  | .arm _ :: p => lastCompound p
  | .loop _ _ _ :: p => lastCompound p
  | .handler h :: _ => h.region.handlerKind ≠ .continue

/-- Every construct around a position, also around the handler it is in, with whether nothing is
executed after the construct. -/
def enclosing : List Around → List (ControlContext × Bool)
  | [] => []
  | .block label _ rest :: p =>
    (blockContext label (seqEntry rest (endRef p)), rest.all Node.isDeclaration && nothingFollows p)
      :: enclosing p
  | .arm _ :: p => enclosing p
  | .loop id region rest :: p =>
    (loopContext id region (seqEntry rest (endRef p)),
      rest.all Node.isDeclaration && nothingFollows p) :: enclosing p
  | .handler _ :: p => enclosing p

structure StatementSite where
  id : NodeRef
  stmt : Statement
  rest : List Node
  around : List Around

/-- The graph node of what follows the statement. -/
def StatementSite.continuation (s : StatementSite) : CfgRef := seqEntry s.rest (endRef s.around)

/-- The edge the builder adds for the statement. -/
def StatementSite.edge (s : StatementSite) : CfgEdge :=
  statementEdge s.id s.stmt s.continuation (controlStack s.around)

structure HandlerSite where
  handler : Handler
  around : List Around

mutual

def nodeSites : Node → List Node → List Around → List StatementSite
  | .simple id stmt, rest, p => [⟨id, stmt, rest, p⟩]
  | .compound _ label _ body, rest, p =>
    statementSites body (.block label (scopeHandlersOf body) rest :: p)
  | .ifRegion _ arms, rest, p => armSites arms rest p
  | .loop id region body, rest, p => statementSites body (.loop id region rest :: p)
  | .handler id region body, _, p => statementSites body (.handler ⟨id, region, body⟩ :: p)

/-- The statements of a sequence, inside handlers too. -/
def statementSites : List Node → List Around → List StatementSite
  | [], _ => []
  | n :: ns, p => nodeSites n ns p ++ statementSites ns p

def armSites : List Arm → List Node → List Around → List StatementSite
  | [], _, _ => []
  | .mk _ body :: arms, rest, p => statementSites body (.arm rest :: p) ++ armSites arms rest p

end

mutual

def nodeHandlerSites : Node → List Node → List Around → List HandlerSite
  | .simple _ _, _, _ => []
  | .compound _ label _ body, rest, p =>
    handlerSites body (.block label (scopeHandlersOf body) rest :: p)
  | .ifRegion _ arms, rest, p => armHandlerSites arms rest p
  | .loop id region body, rest, p => handlerSites body (.loop id region rest :: p)
  | .handler id region body, _, p =>
    ⟨⟨id, region, body⟩, p⟩ :: handlerSites body (.handler ⟨id, region, body⟩ :: p)

/-- The handlers of a sequence. -/
def handlerSites : List Node → List Around → List HandlerSite
  | [], _ => []
  | n :: ns, p => nodeHandlerSites n ns p ++ handlerSites ns p

def armHandlerSites : List Arm → List Node → List Around → List HandlerSite
  | [], _, _ => []
  | .mk _ body :: arms, rest, p =>
    handlerSites body (.arm rest :: p) ++ armHandlerSites arms rest p

end

/-! ## The three properties -/

def Edge (ast : ProcedureAst) (a b : CfgRef) : Prop :=
  ∃ e ∈ (ControlFlowGraph.build ast).edges, e.source = a ∧ e.target = b

/-- An `EXIT` or `UNDO` handler goes on after the compound that declares it. -/
def ExitsDeclaringCompound (ast : ProcedureAst) : Prop :=
  ∀ site ∈ handlerSites ast.body [], site.handler.region.handlerKind ≠ .continue →
    ∀ b ∈ (ControlFlowGraph.build ast).handlerBindings, b.handler = site.handler →
      handlerFallthrough site.handler = compoundExit site.around ∧
      b.continuationTarget = compoundExit site.around

/-- A `CONTINUE` handler goes on after the statement it is bound to. -/
def ResumesAfterSource (ast : ProcedureAst) : Prop :=
  ∀ b ∈ (ControlFlowGraph.build ast).handlerBindings, b.handler.region.handlerKind = .continue →
    ∀ s ∈ statementSites ast.body [], s.id = b.sourceRef →
      Relation.ReflTransGen (Edge ast) (.handlerExit b.handler.id) s.continuation ∧
      b.continuationTarget = s.continuation

def isIterate (stmt : Statement) : Bool := stmt.kind = .iterate

/-- A jump names a construct around the handler it is in; its label is read as the builder reads
it. -/
def NamesOutside (s : StatementSite) (context : ControlContext) (last : Bool) : Prop :=
  (s.stmt.kind = .leave ∨ s.stmt.kind = .iterate) ∧ (jumpLabel s.stmt.text).isSome ∧
  (controlStack s.around).find? (ControlContext.accepts (jumpLabel s.stmt.text) (isIterate s.stmt))
    = none ∧
  (enclosing s.around).find? (fun c => c.1.accepts (jumpLabel s.stmt.text) (isIterate s.stmt))
    = some (context, last)

/-- A jump in a handler to a construct around the handler goes to its exit or header. -/
def JumpsToEnclosing (ast : ProcedureAst) : Prop :=
  ∀ s ∈ statementSites ast.body [], ∀ context last, NamesOutside s context last →
    ∀ e ∈ (ControlFlowGraph.build ast).edges, e.source = .ast s.id →
      (e.kind = .leave ∨ e.kind = .iterate) →
      e.target = if isIterate s.stmt then context.loopHeader.getD context.exitRef
        else context.exitRef

/-- Handlers continue in the graph where the language has them continue. -/
def HandlerContinuation (ast : ProcedureAst) : Prop :=
  ExitsDeclaringCompound ast ∧ ResumesAfterSource ast ∧ JumpsToEnclosing ast

/-- The position is in no handler. -/
def outsideHandlers : List Around → Bool
  | [] => true
  | .handler _ :: _ => false
  | _ :: p => outsideHandlers p

/-- The handlers of the scopes around a position outside handlers, innermost first. -/
def scopesAround (ast : ProcedureAst) : List Around → List (List Handler)
  | [] => procedureScopes ast
  | .block _ scope _ :: p => scope :: scopesAround ast p
  | _ :: p => scopesAround ast p

/-- The statement is outside handlers, and of the handlers that apply to it `h` is the one chosen
for its condition. -/
def BoundTo (ast : ProcedureAst) (s : StatementSite) (h : Handler) : Prop :=
  s ∈ statementSites ast.body [] ∧ outsideHandlers s.around = true ∧
    h ∈ boundHandlers (scopesAround ast s.around) s.stmt

/-- Statements are bound to `EXIT` and `UNDO` handlers only, of compounds with nothing after them,
and handlers are left by a jump only to such constructs, with `LEAVE`. -/
def HandlersAtEnd (ast : ProcedureAst) : Prop :=
  (∀ site ∈ handlerSites ast.body [], (∃ s, BoundTo ast s site.handler) →
    site.handler.region.handlerKind ≠ .continue → lastCompound site.around = true) ∧
  (∀ s h, BoundTo ast s h → h.region.handlerKind ≠ .continue) ∧
  (∀ s ∈ statementSites ast.body [], ∀ context last, NamesOutside s context last →
    s.stmt.kind = .leave ∧ last = true)

/-! ## Nothing follows -/

theorem seqEntry_eq_normalExit {code : List Node} {continuation : CfgRef} :
    seqEntry code continuation = .normalExit ↔
      code.all Node.isDeclaration = true ∧ continuation = .normalExit := by
  induction code with
  | nil => simp [seqEntry]
  | cons n ns ih =>
    cases hdecl : n.isDeclaration with
    | true => simp [seqEntry, nodeEntry, hdecl, ih]
    | false => simp [seqEntry, nodeEntry, hdecl]

theorem handlerFallthrough_eq_normalExit {h : Handler} :
    handlerFallthrough h = .normalExit ↔ h.region.handlerKind ≠ .continue := by
  unfold handlerFallthrough
  split <;> simp_all

theorem endRef_eq_normalExit (p : List Around) :
    endRef p = .normalExit ↔ nothingFollows p = true := by
  induction p with
  | nil => simp [endRef, nothingFollows]
  | cons f p ih =>
    cases f with
    | block label scope rest => simp [endRef, nothingFollows, seqEntry_eq_normalExit, ih]
    | arm rest => simp [endRef, nothingFollows, seqEntry_eq_normalExit, ih]
    | loop id region rest => simp [endRef, nothingFollows]
    | handler h => simp [endRef, nothingFollows, handlerFallthrough_eq_normalExit]

theorem compoundExit_eq_normalExit (p : List Around) :
    compoundExit p = .normalExit ↔ lastCompound p = true := by
  induction p with
  | nil => simp [compoundExit, lastCompound]
  | cons f p ih =>
    cases f with
    | block label scope rest =>
      simp [compoundExit, lastCompound, seqEntry_eq_normalExit, endRef_eq_normalExit]
    | arm rest => exact ih
    | loop id region rest => exact ih
    | handler h => simp [compoundExit, lastCompound, handlerFallthrough_eq_normalExit]

theorem enclosing_exit {p : List Around} {context : ControlContext} {last : Bool}
    (h : (context, last) ∈ enclosing p) : context.exitRef = .normalExit ↔ last = true := by
  induction p with
  | nil => cases h
  | cons f p ih =>
    have hexit : ∀ rest : List Node, seqEntry rest (endRef p) = .normalExit ↔
        (rest.all Node.isDeclaration && nothingFollows p) = true := by
      simp [seqEntry_eq_normalExit, endRef_eq_normalExit]
    cases f with
    | block label scope rest =>
      rcases List.mem_cons.mp h with heq | h
      · obtain ⟨rfl, rfl⟩ := Prod.mk.inj heq
        exact hexit rest
      · exact ih h
    | arm rest => exact ih h
    | loop id region rest =>
      rcases List.mem_cons.mp h with heq | h
      · obtain ⟨rfl, rfl⟩ := Prod.mk.inj heq
        exact hexit rest
      · exact ih h
    | handler hd => exact ih h

theorem enclosing_header {p : List Around} {context : ControlContext} {last : Bool}
    (h : (context, last) ∈ enclosing p) : context.loopHeader ≠ some .exceptionalExit := by
  induction p with
  | nil => cases h
  | cons f p ih =>
    cases f with
    | block label scope rest =>
      rcases List.mem_cons.mp h with heq | h
      · obtain ⟨rfl, -⟩ := Prod.mk.inj heq
        simp [blockContext]
      · exact ih h
    | arm rest => exact ih h
    | loop id region rest =>
      rcases List.mem_cons.mp h with heq | h
      · obtain ⟨rfl, -⟩ := Prod.mk.inj heq
        simp [loopContext]
      · exact ih h
    | handler hd => exact ih h

/-! ## What the builder adds for a part of the tree -/

/-- `e` is added for the sequence or for a handler in it. -/
def Adds (code : List Node) (p : List Around) (e : CfgEdge) : Prop :=
  e ∈ seqEdges code (endRef p) (controlStack p) ∨ ∃ h ∈ handlersOf code, e ∈ handlerEdges h

def NodeAdds (n : Node) (rest : List Node) (p : List Around) (e : CfgEdge) : Prop :=
  e ∈ nodeEdges n (seqEntry rest (endRef p)) (controlStack p) ∨ ∃ h ∈ n.handlers, e ∈ handlerEdges h

/-- `region` is the reference of the IF region the arms belong to. -/
def ArmsAdd (region : NodeRef) (arms : List Arm) (rest : List Node) (p : List Around)
    (e : CfgEdge) : Prop :=
  (∃ index hasElse always, e ∈ armEdges region index hasElse always arms (seqEntry rest (endRef p))
    (controlStack p)) ∨ ∃ h ∈ handlersOfArms arms, e ∈ handlerEdges h

section Adds

variable {rest ns body : List Node} {n : Node} {p : List Around} {e : CfgEdge} {id : NodeRef}

theorem adds_cons : Adds (n :: ns) p e ↔ NodeAdds n ns p e ∨ Adds ns p e := by
  simp only [Adds, NodeAdds, seqEdges, handlersOf, List.mem_append, or_and_right, exists_or]
  grind

theorem nodeAdds_compound {label : Option String} {text : String} :
    NodeAdds (.compound id label text body) rest p e ↔
      e = { source := .ast id, target := seqEntry body (seqEntry rest (endRef p)),
            kind := .sequential } ∨
        Adds body (.block label (scopeHandlersOf body) rest :: p) e := by
  simp only [Adds, NodeAdds, nodeEdges, Node.handlers, List.mem_append, List.mem_singleton, endRef,
    controlStack]
  tauto

theorem nodeAdds_loop {region : LoopRegion} (h : NodeAdds (.loop id region body) rest p e) :
    e.source = .ast id ∨ Adds body (.loop id region rest :: p) e := by
  rcases h with h | h
  · simp only [nodeEdges, List.mem_append, List.mem_cons] at h
    rcases h with h | rfl | h
    · exact .inr (.inl h)
    · exact .inl rfl
    · split at h
      · cases h
      · obtain rfl := List.mem_singleton.mp h
        exact .inl rfl
  · exact .inr (.inr h)

theorem nodeAdds_loop_body {region : LoopRegion} (h : Adds body (.loop id region rest :: p) e) :
    NodeAdds (.loop id region body) rest p e :=
  h.imp_left fun h => List.mem_append_left _ h

theorem nodeAdds_handler {region : HandlerRegion}
    (h : NodeAdds (.handler id region body) rest p e) :
    e.source = .ast id ∨ Adds body (.handler ⟨id, region, body⟩ :: p) e := by
  rcases h with h | ⟨hd, hmem, h⟩
  · cases h
  · rcases List.mem_cons.mp hmem with rfl | hmem
    · simp only [handlerEdges, List.mem_append, List.mem_cons] at h
      rcases h with h | rfl | h
      · exact .inr (.inl h)
      · exact .inl rfl
      · split at h
        · obtain rfl := List.mem_singleton.mp h
          exact .inl rfl
        · cases h
    · exact .inr (.inr ⟨hd, hmem, h⟩)

theorem nodeAdds_handler_body {region : HandlerRegion}
    (h : Adds body (.handler ⟨id, region, body⟩ :: p) e) :
    NodeAdds (.handler id region body) rest p e := by
  rcases h with h | ⟨hd, hmem, h⟩
  · exact .inr ⟨⟨id, region, body⟩, List.mem_cons_self, List.mem_append_left _ h⟩
  · exact .inr ⟨hd, List.mem_cons_of_mem _ hmem, h⟩

theorem nodeAdds_ifRegion {arms : List Arm} (h : NodeAdds (.ifRegion id arms) rest p e) :
    ArmsAdd id arms rest p e :=
  h.imp_left fun h => ⟨0, false, false, h⟩

theorem armsAdd_cons {header : IfArm} {arms : List Arm}
    (h : ArmsAdd id (.mk header body :: arms) rest p e) :
    e.source = .ast id ∨ e.source = .ast header.armId ∨ Adds body (.arm rest :: p) e ∨
      ArmsAdd id arms rest p e := by
  rcases h with ⟨index, hasElse, always, h⟩ | ⟨hd, hmem, h⟩
  · simp only [armEdges, List.mem_append, List.mem_cons] at h
    rcases h with h | rfl | h | h
    · exact .inr (.inr (.inl (.inl h)))
    · exact .inr (.inl rfl)
    · split at h
      · cases h
      · obtain rfl := List.mem_singleton.mp h
        exact .inl rfl
    · exact .inr (.inr (.inr (.inl ⟨_, _, _, h⟩)))
  · rcases List.mem_append.mp hmem with hmem | hmem
    · exact .inr (.inr (.inl (.inr ⟨hd, hmem, h⟩)))
    · exact .inr (.inr (.inr (.inr ⟨hd, hmem, h⟩)))

theorem armsAdd_nil (h : ArmsAdd id [] rest p e) : e.source = .ast id := by
  rcases h with ⟨index, hasElse, always, h⟩ | ⟨hd, hmem, -⟩
  · simp only [armEdges] at h
    split at h
    · obtain rfl := List.mem_singleton.mp h
      rfl
    · cases h
  · cases hmem

end Adds

variable {e : CfgEdge}

mutual

theorem nodeAdds_source {n : Node} {rest : List Node} {p : List Around}
    (h : NodeAdds n rest p e) : ∃ ref ∈ n.refs, e.source = .ast ref := by
  cases n with
  | simple id stmt =>
    rcases h with h | ⟨_, hmem, _⟩
    · simp only [nodeEdges] at h
      split at h
      · cases h
      · obtain rfl := List.mem_singleton.mp h
        exact ⟨id, List.mem_singleton.mpr rfl, statementEdge_source ..⟩
    · cases hmem
  | compound id label text body =>
    rcases nodeAdds_compound.mp h with rfl | h
    · exact ⟨id, List.mem_cons_self, rfl⟩
    · obtain ⟨ref, href, hsource⟩ := adds_source h
      exact ⟨ref, List.mem_cons_of_mem _ href, hsource⟩
  | ifRegion id arms =>
    obtain ⟨ref, href, hsource⟩ := armsAdd_source (nodeAdds_ifRegion h)
    exact ⟨ref, href, hsource⟩
  | loop id region body =>
    rcases nodeAdds_loop h with h | h
    · exact ⟨id, List.mem_cons_self, h⟩
    · obtain ⟨ref, href, hsource⟩ := adds_source h
      exact ⟨ref, List.mem_cons_of_mem _ href, hsource⟩
  | handler id region body =>
    rcases nodeAdds_handler h with h | h
    · exact ⟨id, List.mem_cons_self, h⟩
    · obtain ⟨ref, href, hsource⟩ := adds_source h
      exact ⟨ref, List.mem_cons_of_mem _ href, hsource⟩

theorem adds_source {code : List Node} {p : List Around} (h : Adds code p e) :
    ∃ ref ∈ refsOf code, e.source = .ast ref := by
  cases code with
  | nil => simp [Adds, seqEdges, handlersOf] at h
  | cons n ns =>
    rcases adds_cons.mp h with h | h
    · obtain ⟨ref, href, hsource⟩ := nodeAdds_source h
      exact ⟨ref, List.mem_append_left _ href, hsource⟩
    · obtain ⟨ref, href, hsource⟩ := adds_source h
      exact ⟨ref, List.mem_append_right _ href, hsource⟩

theorem armsAdd_source {region : NodeRef} {arms : List Arm} {rest : List Node} {p : List Around}
    (h : ArmsAdd region arms rest p e) :
    ∃ ref ∈ region :: refsOfArms arms, e.source = .ast ref := by
  cases arms with
  | nil => exact ⟨region, List.mem_cons_self, armsAdd_nil h⟩
  | cons a arms =>
    obtain ⟨header, body⟩ := a
    rcases armsAdd_cons h with h | h | h | h
    · exact ⟨region, List.mem_cons_self, h⟩
    · exact ⟨header.armId, List.mem_cons_of_mem _ List.mem_cons_self, h⟩
    · obtain ⟨ref, href, hsource⟩ := adds_source h
      exact ⟨ref, by simp [refsOfArms, href], hsource⟩
    · obtain ⟨ref, href, hsource⟩ := armsAdd_source h
      refine ⟨ref, ?_, hsource⟩
      rcases List.mem_cons.mp href with rfl | href
      · exact List.mem_cons_self
      · simp [refsOfArms, href]

end

variable {s : StatementSite}

mutual

theorem nodeSites_refs {n : Node} {rest : List Node} {p : List Around}
    (hs : s ∈ nodeSites n rest p) : s.id ∈ n.refs := by
  cases n with
  | simple id stmt =>
    obtain rfl := List.mem_singleton.mp hs
    exact List.mem_singleton.mpr rfl
  | compound id label text body => exact List.mem_cons_of_mem _ (statementSites_refs hs)
  | ifRegion id arms => exact List.mem_cons_of_mem _ (armSites_refs hs)
  | loop id region body => exact List.mem_cons_of_mem _ (statementSites_refs hs)
  | handler id region body => exact List.mem_cons_of_mem _ (statementSites_refs hs)

theorem statementSites_refs {code : List Node} {p : List Around}
    (hs : s ∈ statementSites code p) : s.id ∈ refsOf code := by
  cases code with
  | nil => cases hs
  | cons n ns =>
    rcases List.mem_append.mp hs with hs | hs
    · exact List.mem_append_left _ (nodeSites_refs hs)
    · exact List.mem_append_right _ (statementSites_refs hs)

theorem armSites_refs {arms : List Arm} {rest : List Node} {p : List Around}
    (hs : s ∈ armSites arms rest p) : s.id ∈ refsOfArms arms := by
  cases arms with
  | nil => cases hs
  | cons a arms =>
    obtain ⟨header, body⟩ := a
    rcases List.mem_append.mp hs with hs | hs
    · exact List.mem_cons_of_mem _ (List.mem_append_left _ (statementSites_refs hs))
    · exact List.mem_cons_of_mem _ (List.mem_append_right _ (armSites_refs hs))

end

mutual

/-- References are distinct, so the only edge the builder adds for a statement is its own. -/
theorem nodeAdds_unique {n : Node} {rest : List Node} {p : List Around}
    (hdistinct : n.refs.Nodup) (hs : s ∈ nodeSites n rest p)
    (h : NodeAdds n rest p e) (hsource : e.source = .ast s.id) : e = s.edge := by
  cases n with
  | simple id stmt =>
    obtain rfl := List.mem_singleton.mp hs
    rcases h with h | ⟨_, hmem, _⟩
    · simp only [nodeEdges] at h
      split at h
      · cases h
      · exact List.mem_singleton.mp h
    · cases hmem
  | compound id label text body =>
    obtain ⟨hid, hbody⟩ := List.nodup_cons.mp hdistinct
    rcases nodeAdds_compound.mp h with rfl | h
    · obtain rfl : id = s.id := by simpa using hsource
      exact absurd (statementSites_refs hs) hid
    · exact adds_unique hbody hs h hsource
  | ifRegion id arms =>
    obtain ⟨hid, harms⟩ := List.nodup_cons.mp hdistinct
    exact armsAdd_unique hid harms hs (nodeAdds_ifRegion h) hsource
  | loop id region body =>
    obtain ⟨hid, hbody⟩ := List.nodup_cons.mp hdistinct
    rcases nodeAdds_loop h with h | h
    · obtain rfl : id = s.id := by simpa [h] using hsource
      exact absurd (statementSites_refs hs) hid
    · exact adds_unique hbody hs h hsource
  | handler id region body =>
    obtain ⟨hid, hbody⟩ := List.nodup_cons.mp hdistinct
    rcases nodeAdds_handler h with h | h
    · obtain rfl : id = s.id := by simpa [h] using hsource
      exact absurd (statementSites_refs hs) hid
    · exact adds_unique hbody hs h hsource

theorem adds_unique {code : List Node} {p : List Around}
    (hdistinct : (refsOf code).Nodup) (hs : s ∈ statementSites code p) (h : Adds code p e)
    (hsource : e.source = .ast s.id) : e = s.edge := by
  cases code with
  | nil => cases hs
  | cons n ns =>
    obtain ⟨hn, hns, hdisjoint⟩ := List.nodup_append.mp hdistinct
    rcases List.mem_append.mp hs with hs | hs <;> rcases adds_cons.mp h with h | h
    · exact nodeAdds_unique hn hs h hsource
    · obtain ⟨ref, href, heq⟩ := adds_source h
      obtain rfl : ref = s.id := by simpa [heq] using hsource
      exact absurd rfl (hdisjoint _ (nodeSites_refs hs) _ href)
    · obtain ⟨ref, href, heq⟩ := nodeAdds_source h
      obtain rfl : ref = s.id := by simpa [heq] using hsource
      exact absurd rfl (hdisjoint _ href _ (statementSites_refs hs))
    · exact adds_unique hns hs h hsource

/-- A statement of the arms has one edge of its own. -/
theorem armsAdd_unique {region : NodeRef} {arms : List Arm} {rest : List Node} {p : List Around}
    (hregion : region ∉ refsOfArms arms)
    (hdistinct : (refsOfArms arms).Nodup) (hs : s ∈ armSites arms rest p)
    (h : ArmsAdd region arms rest p e) (hsource : e.source = .ast s.id) : e = s.edge := by
  cases arms with
  | nil => cases hs
  | cons a arms =>
    obtain ⟨header, body⟩ := a
    obtain ⟨hheader, happend⟩ := List.nodup_cons.mp hdistinct
    obtain ⟨hbody, harms, hdisjoint⟩ := List.nodup_append.mp happend
    have hregion' : region ∉ refsOfArms arms := fun hmem =>
      hregion (List.mem_cons_of_mem _ (List.mem_append_right _ hmem))
    have hmem : s.id ∈ refsOf body ++ refsOfArms arms :=
      List.mem_append.mpr ((List.mem_append.mp hs).imp statementSites_refs armSites_refs)
    rcases armsAdd_cons h with h | h | h | h
    · obtain rfl : region = s.id := by simpa [h] using hsource
      exact absurd (List.mem_cons_of_mem _ hmem) hregion
    · have heq : header.armId = s.id := by simpa [h] using hsource
      rw [← heq] at hmem
      exact absurd hmem hheader
    · rcases List.mem_append.mp hs with hs | hs
      · exact adds_unique hbody hs h hsource
      · obtain ⟨ref, href, heq⟩ := adds_source h
        obtain rfl : ref = s.id := by simpa [heq] using hsource
        exact absurd rfl (hdisjoint _ href _ (armSites_refs hs))
    · rcases List.mem_append.mp hs with hs | hs
      · obtain ⟨ref, href, heq⟩ := armsAdd_source h
        obtain rfl : ref = s.id := by simpa [heq] using hsource
        rcases List.mem_cons.mp href with rfl | href
        · exact absurd (List.mem_cons_of_mem _ hmem) hregion
        · exact absurd rfl (hdisjoint _ (statementSites_refs hs) _ href)
      · exact armsAdd_unique hregion' harms hs h hsource

end

mutual

theorem nodeSites_adds {n : Node} {rest : List Node} {p : List Around}
    (hs : s ∈ nodeSites n rest p) (hdecl : (Node.simple s.id s.stmt).isDeclaration = false) :
    NodeAdds n rest p s.edge := by
  cases n with
  | simple id stmt =>
    obtain rfl := List.mem_singleton.mp hs
    left
    simp only [nodeEdges, hdecl]
    exact List.mem_singleton.mpr rfl
  | compound id label text body => exact nodeAdds_compound.mpr (.inr (statementSites_adds hs hdecl))
  | ifRegion id arms => exact armSites_adds id 0 false false hs hdecl
  | loop id region body => exact nodeAdds_loop_body (statementSites_adds hs hdecl)
  | handler id region body => exact nodeAdds_handler_body (statementSites_adds hs hdecl)

theorem statementSites_adds {code : List Node} {p : List Around}
    (hs : s ∈ statementSites code p) (hdecl : (Node.simple s.id s.stmt).isDeclaration = false) :
    Adds code p s.edge := by
  cases code with
  | nil => cases hs
  | cons n ns =>
    rcases List.mem_append.mp hs with hs | hs
    · exact adds_cons.mpr (.inl (nodeSites_adds hs hdecl))
    · exact adds_cons.mpr (.inr (statementSites_adds hs hdecl))

theorem armSites_adds (region : NodeRef) (index : Nat) (hasElse always : Bool) {arms : List Arm}
    {rest : List Node} {p : List Around} (hs : s ∈ armSites arms rest p)
    (hdecl : (Node.simple s.id s.stmt).isDeclaration = false) :
    s.edge ∈ armEdges region index hasElse always arms (seqEntry rest (endRef p)) (controlStack p) ∨
      ∃ h ∈ handlersOfArms arms, s.edge ∈ handlerEdges h := by
  cases arms with
  | nil => cases hs
  | cons a arms =>
    obtain ⟨header, body⟩ := a
    simp only [armEdges, handlersOfArms, List.mem_append, List.mem_cons]
    rcases List.mem_append.mp hs with hs | hs
    · rcases statementSites_adds hs hdecl with h | ⟨hd, hmem, h⟩
      · exact .inl (.inl h)
      · exact .inr ⟨hd, .inl hmem, h⟩
    · rcases armSites_adds region (index + 1) (hasElse || header.armKind = .else)
        (always || armTruth header = some true) hs hdecl with h | ⟨hd, hmem, h⟩
      · exact .inl (.inr (.inr (.inr h)))
      · exact .inr ⟨hd, .inr hmem, h⟩

end

/-! ## Sources of bindings -/

theorem seqEntry_cases (code : List Node) (continuation : CfgRef) :
    seqEntry code continuation = continuation ∨ ∃ ref, seqEntry code continuation = .ast ref := by
  induction code with
  | nil => exact .inl rfl
  | cons n ns ih =>
    cases hdecl : n.isDeclaration with
    | true => simpa [seqEntry, nodeEntry, hdecl] using ih
    | false => exact .inr ⟨n.id, by simp [seqEntry, nodeEntry, hdecl]⟩

theorem endRef_outside {p : List Around} (h : outsideHandlers p = true) (hd : NodeRef) :
    endRef p ≠ .handlerExit hd := by
  have hseq : ∀ (rest : List Node) {c : CfgRef}, c ≠ .handlerExit hd →
      seqEntry rest c ≠ .handlerExit hd := by
    intro rest c hc
    rcases seqEntry_cases rest c with heq | ⟨ref, heq⟩ <;> simp [heq, hc]
  induction p with
  | nil => simp [endRef]
  | cons f p ih =>
    cases f with
    | block label scope rest => exact hseq rest (ih h)
    | arm rest => exact hseq rest (ih h)
    | loop id region rest => simp [endRef]
    | handler hd => cases h

mutual

theorem nodeSites_around {n : Node} {rest : List Node} {p : List Around}
    (hs : s ∈ nodeSites n rest p) (hp : outsideHandlers p = false) :
    ¬ outsideHandlers s.around = true := by
  cases n with
  | simple id stmt =>
    obtain rfl := List.mem_singleton.mp hs
    simp [hp]
  | compound id label text body => exact statementSites_around hs hp
  | ifRegion id arms => exact armSites_around hs hp
  | loop id region body => exact statementSites_around hs hp
  | handler id region body => exact statementSites_around hs rfl

theorem statementSites_around {code : List Node} {p : List Around}
    (hs : s ∈ statementSites code p) (hp : outsideHandlers p = false) :
    ¬ outsideHandlers s.around = true := by
  cases code with
  | nil => cases hs
  | cons n ns =>
    rcases List.mem_append.mp hs with hs | hs
    · exact nodeSites_around hs hp
    · exact statementSites_around hs hp

theorem armSites_around {arms : List Arm} {rest : List Node} {p : List Around}
    (hs : s ∈ armSites arms rest p) (hp : outsideHandlers p = false) :
    ¬ outsideHandlers s.around = true := by
  cases arms with
  | nil => cases hs
  | cons a arms =>
    obtain ⟨header, body⟩ := a
    rcases List.mem_append.mp hs with hs | hs
    · exact statementSites_around hs hp
    · exact armSites_around hs hp

end

section Bindings

variable {ast : ProcedureAst} {successors : CfgRef → Option CfgRef} {b : HandlerFlowBinding}

mutual

theorem nodeBindings_site {n : Node} (rest : List Node) {p : List Around}
    (hb : b ∈ nodeBindings successors (scopesAround ast p) n) (hp : outsideHandlers p = true) :
    ∃ s ∈ nodeSites n rest p, outsideHandlers s.around = true ∧
      b ∈ sourceBindings successors (scopesAround ast s.around) s.id s.stmt := by
  cases n with
  | simple id stmt => exact ⟨⟨id, stmt, rest, p⟩, List.mem_singleton.mpr rfl, hp, hb⟩
  | compound id label text body => exact seqBindings_site hb hp
  | ifRegion id arms => exact armBindings_site rest hb hp
  | loop id region body => exact seqBindings_site hb hp
  | handler id region body => cases hb

theorem seqBindings_site {code : List Node} {p : List Around}
    (hb : b ∈ seqBindings successors (scopesAround ast p) code) (hp : outsideHandlers p = true) :
    ∃ s ∈ statementSites code p, outsideHandlers s.around = true ∧
      b ∈ sourceBindings successors (scopesAround ast s.around) s.id s.stmt := by
  cases code with
  | nil => cases hb
  | cons n ns =>
    rcases List.mem_append.mp hb with hb | hb
    · obtain ⟨s, hs, h⟩ := nodeBindings_site ns hb hp
      exact ⟨s, List.mem_append_left _ hs, h⟩
    · obtain ⟨s, hs, h⟩ := seqBindings_site hb hp
      exact ⟨s, List.mem_append_right _ hs, h⟩

theorem armBindings_site {arms : List Arm} (rest : List Node) {p : List Around}
    (hb : b ∈ armBindings successors (scopesAround ast p) arms) (hp : outsideHandlers p = true) :
    ∃ s ∈ armSites arms rest p, outsideHandlers s.around = true ∧
      b ∈ sourceBindings successors (scopesAround ast s.around) s.id s.stmt := by
  cases arms with
  | nil => cases hb
  | cons a arms =>
    obtain ⟨header, body⟩ := a
    rcases List.mem_append.mp hb with hb | hb
    · obtain ⟨s, hs, h⟩ := seqBindings_site (p := .arm rest :: p) hb hp
      exact ⟨s, List.mem_append_left _ hs, h⟩
    · obtain ⟨s, hs, h⟩ := armBindings_site rest hb hp
      exact ⟨s, List.mem_append_right _ hs, h⟩

end

mutual

theorem nodeSites_bindings {n : Node} {rest : List Node} {p : List Around}
    (hs : s ∈ nodeSites n rest p) (houtside : outsideHandlers s.around = true)
    (hb : b ∈ sourceBindings successors (scopesAround ast s.around) s.id s.stmt) :
    b ∈ nodeBindings successors (scopesAround ast p) n := by
  cases n with
  | simple id stmt =>
    obtain rfl := List.mem_singleton.mp hs
    exact hb
  | compound id label text body => exact statementSites_bindings hs houtside hb
  | ifRegion id arms => exact armSites_bindings hs houtside hb
  | loop id region body =>
    exact statementSites_bindings (p := .loop id region rest :: p) hs houtside hb
  | handler id region body => exact absurd houtside (statementSites_around hs rfl)

theorem statementSites_bindings {code : List Node} {p : List Around}
    (hs : s ∈ statementSites code p) (houtside : outsideHandlers s.around = true)
    (hb : b ∈ sourceBindings successors (scopesAround ast s.around) s.id s.stmt) :
    b ∈ seqBindings successors (scopesAround ast p) code := by
  cases code with
  | nil => cases hs
  | cons n ns =>
    rcases List.mem_append.mp hs with hs | hs
    · exact List.mem_append_left _ (nodeSites_bindings hs houtside hb)
    · exact List.mem_append_right _ (statementSites_bindings hs houtside hb)

theorem armSites_bindings {arms : List Arm} {rest : List Node} {p : List Around}
    (hs : s ∈ armSites arms rest p) (houtside : outsideHandlers s.around = true)
    (hb : b ∈ sourceBindings successors (scopesAround ast s.around) s.id s.stmt) :
    b ∈ armBindings successors (scopesAround ast p) arms := by
  cases arms with
  | nil => cases hs
  | cons a arms =>
    obtain ⟨header, body⟩ := a
    rcases List.mem_append.mp hs with hs | hs
    · exact List.mem_append_left _
        (statementSites_bindings (p := .arm rest :: p) hs houtside hb)
    · exact List.mem_append_right _ (armSites_bindings hs houtside hb)

end

end Bindings

variable {ast : ProcedureAst}

theorem exists_binding_iff {h : Handler} :
    (∃ b ∈ (ControlFlowGraph.build ast).handlerBindings, b.handler = h) ↔
      ∃ s, BoundTo ast s h := by
  constructor
  · rintro ⟨b, hb, rfl⟩
    obtain ⟨s, hs, houtside, hsource⟩ := seqBindings_site (p := []) hb rfl
    obtain ⟨h, hbound, rfl⟩ := List.mem_map.mp hsource
    exact ⟨s, hs, houtside, hbound⟩
  · rintro ⟨s, hs, houtside, hbound⟩
    let b : HandlerFlowBinding :=
      ⟨s.id, h, bindingContinuation (normalSuccessors (structuralEdges ast)) s.id h⟩
    have hb : b ∈ sourceBindings (normalSuccessors (structuralEdges ast))
        (scopesAround ast s.around) s.id s.stmt := List.mem_map.mpr ⟨h, hbound, rfl⟩
    exact ⟨b, statementSites_bindings (p := []) hs houtside hb, rfl⟩

/-! ## The edges of the whole graph -/

theorem mem_cfgEdges :
    e ∈ cfgEdges ast ↔ Adds ast.body [] e ∨
      e = { source := .entry, target := seqEntry ast.body .normalExit, kind := .entry } ∨
      ∃ b ∈ handlerBindings ast, e = b.edge := by
  simp only [cfgEdges, structuralEdges, Adds, endRef, controlStack, List.mem_append, List.mem_cons,
    List.mem_flatMap, List.mem_map, eq_comm]
  grind

theorem not_edge_handlerExit {h : NodeRef} {y : CfgRef} :
    ¬ Edge ast (.handlerExit h) y := by
  rintro ⟨e, he, hsource, -⟩
  rcases mem_cfgEdges.mp he with hadds | rfl | ⟨b, -, rfl⟩
  · obtain ⟨ref, -, href⟩ := adds_source hadds
    simp [href] at hsource
  · simp at hsource
  · simp [HandlerFlowBinding.edge] at hsource

theorem no_path_from_handlerExit {h : NodeRef} {y : CfgRef}
    (hpath : Relation.ReflTransGen (Edge ast) (.handlerExit h) y) : y = .handlerExit h := by
  rcases hpath.cases_head with heq | ⟨z, hedge, -⟩
  · exact heq.symm
  · exact absurd hedge not_edge_handlerExit

/-! ## Which procedures the graph is right for -/

section Exact

variable {ast : ProcedureAst}

theorem exitsDeclaringCompound_iff : ExitsDeclaringCompound ast ↔
    ∀ site ∈ handlerSites ast.body [], (∃ s, BoundTo ast s site.handler) →
      site.handler.region.handlerKind ≠ .continue → lastCompound site.around = true := by
  constructor
  · rintro h site hsite hbound hkind
    obtain ⟨b, hb, heq⟩ := exists_binding_iff.mpr hbound
    obtain ⟨hexit, -⟩ := h site hsite hkind b hb heq
    rw [← compoundExit_eq_normalExit, ← hexit]
    exact handlerFallthrough_eq_normalExit.mpr hkind
  · intro h site hsite hkind b hb heq
    have hlast := h site hsite (exists_binding_iff.mp ⟨b, hb, heq⟩) hkind
    have hexit := (compoundExit_eq_normalExit site.around).mpr hlast
    refine ⟨(handlerFallthrough_eq_normalExit.mpr hkind).trans hexit.symm, ?_⟩
    obtain ⟨s, -, -, hsource⟩ := seqBindings_site (p := []) hb rfl
    obtain ⟨hd, -, rfl⟩ := List.mem_map.mp hsource
    rw [← heq] at hkind
    rw [hexit, bindingContinuation, if_neg hkind]

theorem resumesAfterSource_iff : ResumesAfterSource ast ↔
    ∀ s h, BoundTo ast s h → h.region.handlerKind ≠ .continue := by
  constructor
  · intro h s hd hbound hkind
    obtain ⟨b, hb, rfl⟩ := exists_binding_iff.mpr ⟨s, hbound⟩
    obtain ⟨t, ht, houtside, hsource⟩ := seqBindings_site (p := []) hb rfl
    obtain ⟨hd, -, rfl⟩ := List.mem_map.mp hsource
    obtain ⟨hpath, -⟩ := h _ hb hkind t ht rfl
    have hend := no_path_from_handlerExit hpath
    have hne := endRef_outside houtside hd.id
    rcases seqEntry_cases t.rest (endRef t.around) with heq | ⟨ref, heq⟩
    · exact hne (heq.symm.trans hend)
    · cases heq.symm.trans hend
  · intro h b hb hkind
    obtain ⟨s, hbound⟩ := exists_binding_iff.mp ⟨b, hb, rfl⟩
    exact absurd hkind (h s b.handler hbound)

theorem edge_of_namesOutside {context : ControlContext} {last : Bool}
    (h : NamesOutside s context last) :
    (s.edge.kind = .leave ∨ s.edge.kind = .iterate) ∧
      s.edge.target = if isIterate s.stmt then .exceptionalExit else .normalExit := by
  obtain ⟨hkind, hlabel, hstack, -⟩ := h
  rcases hkind with hkind | hkind
  · have hleave : isIterate s.stmt = false := by simp [isIterate, hkind]
    rw [hleave] at hstack
    simp [StatementSite.edge, statementEdge, hkind, hleave, resolveControlTarget, hstack, hlabel]
  · have hiterate : isIterate s.stmt = true := by simp [isIterate, hkind]
    rw [hiterate] at hstack
    simp [StatementSite.edge, statementEdge, hkind, hiterate, resolveControlTarget, hstack]

/-- Seen from the statements: no jump leaves a handler's body. -/
theorem jumpsToEnclosing_iff : JumpsToEnclosing ast ↔
    ∀ s ∈ statementSites ast.body [], ∀ context last, NamesOutside s context last →
      s.stmt.kind = .leave ∧ last = true := by
  constructor
  · intro h s hs context last hnames
    obtain ⟨hedge, htarget⟩ := edge_of_namesOutside hnames
    have ⟨hkind, _, _, henclosing⟩ := hnames
    have hdecl : (Node.simple s.id s.stmt).isDeclaration = false := by
      rcases hkind with hkind | hkind <;> simp [Node.isDeclaration, hkind]
    have hmem := List.mem_of_find?_eq_some henclosing
    have hright := h s hs context last hnames s.edge
      (mem_cfgEdges.mpr (.inl (statementSites_adds hs hdecl))) (statementEdge_source ..) hedge
    rw [htarget] at hright
    rcases hkind with hkind | hkind
    · have hleave : isIterate s.stmt = false := by simp [isIterate, hkind]
      rw [hleave, if_neg (by simp), if_neg (by simp)] at hright
      exact ⟨hkind, (enclosing_exit hmem).mp hright.symm⟩
    -- an ITERATE is sent to the exceptional exit, which is no header
    · have hiterate : isIterate s.stmt = true := by simp [isIterate, hkind]
      have haccepts := List.find?_some henclosing
      simp only [ControlContext.accepts, hiterate, Bool.not_true, Bool.false_or, Bool.and_eq_true,
        Option.isSome_iff_exists] at haccepts
      obtain ⟨-, header, hheader⟩ := haccepts
      rw [hiterate, if_pos rfl, if_pos rfl, hheader, Option.getD_some] at hright
      exact absurd (hright ▸ hheader) (enclosing_header hmem)
  · intro h s hs context last hnames e he hsource hkind
    obtain ⟨hleave, rfl⟩ := h s hs context last hnames
    have hmem := List.mem_of_find?_eq_some hnames.2.2.2
    have hnot : isIterate s.stmt = false := by simp [isIterate, hleave]
    rcases mem_cfgEdges.mp he with hadds | rfl | ⟨b, -, rfl⟩
    · obtain rfl := adds_unique ast.distinct hs hadds hsource
      rw [(edge_of_namesOutside hnames).2, hnot, if_neg (by simp), if_neg (by simp)]
      exact ((enclosing_exit hmem).mpr rfl).symm
    · simp at hsource
    · simp [HandlerFlowBinding.edge] at hkind

/-- The graph has handlers right exactly when every handler it binds ends the procedure. -/
theorem handler_continuation_iff (ast : ProcedureAst) :
    HandlerContinuation ast ↔ HandlersAtEnd ast := by
  rw [HandlerContinuation, HandlersAtEnd, exitsDeclaringCompound_iff, resumesAfterSource_iff,
    jumpsToEnclosing_iff]

end Exact

def exitHandler : Handler :=
  ⟨"handler", { handlerKind := .exit, handledConditionText := "SQLEXCEPTION" }, []⟩

/-- A block with a handler, and a statement after it. -/
def exitThenUpdate : ProcedureAst where
  nodeId := "procedure"
  parameters := []
  commitOnReturn := none
  body :=
    [.compound "block" none "BEGIN"
       [.handler exitHandler.id exitHandler.region exitHandler.body,
        .simple "select" { kind := .selectInto, text := "SELECT B INTO V FROM U" }],
     .simple "update" { kind := .dml, text := "UPDATE T SET A = 1" }]
  distinct := by decide

/-- The handler is sent to the normal exit, past the statement after its block. -/
theorem handler_continuation_skips_rest : ¬ HandlerContinuation exitThenUpdate := by
  rintro ⟨hexits, -, -⟩
  have hbindings : (ControlFlowGraph.build exitThenUpdate).handlerBindings
      = [⟨"select", exitHandler, .normalExit⟩] := rfl
  have hsites : handlerSites exitThenUpdate.body [] = [⟨exitHandler, [.block none [exitHandler]
      [.simple "update" { kind := .dml, text := "UPDATE T SET A = 1" }]]⟩] := rfl
  have hright := hexits _ (hsites ▸ List.mem_singleton.mpr rfl) (by decide) _
    (hbindings ▸ List.mem_singleton.mpr rfl) rfl
  exact absurd hright.1 (by decide)

end AtlasDb.Analysis
