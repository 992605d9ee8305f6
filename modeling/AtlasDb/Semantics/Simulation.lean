import AtlasDb.Semantics.Structural

/-!
# Executions follow the graph

Every configuration has a place in the graph (`pos`), and a step goes along edges of the graph,
with exceptions that are listed once (`Irregular`): the builder misreads a label or a comparison of
literals, the graph has no edge for what a statement raises or for a condition raised inside a
handler, sends an `EXIT` handler of a nested compound to the normal exit, resolves a jump out of a
handler without the constructs around it, and does not come back from a `CONTINUE` handler. The last
one is harmless for a statement with an edge to its successor, because that edge leads where the
handler resumes.

The result is stated for any set `R` of graph nodes that is closed under edges: if an execution
starts at a place in `R` it stays in `R` (`run_tracked`). Reachability, dominance and first-boundary
searches are all instances.
-/

namespace AtlasDb.Semantics

open Core Lib Parsing Analysis

/-! ## Places -/

/-- The graph node at which the code of a frame continues. -/
def contRef : List Frame → CfgRef
  | [] => .normalExit
  | .block _ _ rest :: k => seqEntry rest (contRef k)
  | .loop l _ :: _ => .ast l.id
  | .handler h _ _ :: _ => handlerFallthrough h

/-- The control stack the builder has at the code of a frame. -/
def contexts : List Frame → List ControlContext
  | [] => []
  | .block label _ rest :: k => blockContext label (seqEntry rest (contRef k)) :: contexts k
  | .loop l rest :: k => loopContext l.id l.region (seqEntry rest (contRef k)) :: contexts k
  | .handler _ _ _ :: _ => []

def pos : Config → CfgRef
  | .run code k => seqEntry code (contRef k)
  | .header l _ _ _ => .ast l.id
  | .returned => .normalExit
  | .escaped => .exceptionalExit

def frames : Config → List Frame
  | .run _ k => k
  | .header _ _ _ k => k
  | .returned => []
  | .escaped => []

/-! ## Sequences and arms -/

variable {id : NodeRef} {h : Handler} {arms : List Arm} {rest ns : List Node} {k : List Frame}
  {ast : ProcedureAst} {stmt : Statement} {M : ConditionModel} {visits : List Visit}

theorem seqEntry_append (xs ys : List Node) (continuation : CfgRef) :
    seqEntry (xs ++ ys) continuation = seqEntry xs (seqEntry ys continuation) := by
  induction xs with
  | nil => rfl
  | cons x xs ih => simp [seqEntry, ih]

theorem seqEdges_append (xs ys : List Node) (continuation : CfgRef) (stack : List ControlContext) :
    seqEdges (xs ++ ys) continuation stack
      = seqEdges ys continuation stack ++ seqEdges xs (seqEntry ys continuation) stack := by
  induction xs with
  | nil => simp [seqEdges]
  | cons x xs ih => simp [seqEdges, ih, seqEntry_append]

theorem seqBindings_append (successors : CfgRef → Option CfgRef) (scopes : List (List Handler))
    (xs ys : List Node) :
    seqBindings successors scopes (xs ++ ys)
      = seqBindings successors scopes xs ++ seqBindings successors scopes ys := by
  induction xs with
  | nil => rfl
  | cons x xs ih => simp [seqBindings, ih]

theorem armEdges_body {index : Nat} {hasElse always : Bool}
    {continuation : CfgRef} {stack : List ControlContext} {arm : Arm} (h : arm ∈ arms) :
    seqEdges arm.body continuation stack
      ⊆ armEdges id index hasElse always arms continuation stack := by
  induction arms generalizing index hasElse always with
  | nil => cases h
  | cons a arms ih =>
    obtain ⟨header, body⟩ := a
    intro e he
    simp only [armEdges, List.mem_append, List.mem_cons]
    rcases List.mem_cons.mp h with rfl | h
    · exact .inl he
    · exact .inr (.inr (.inr (ih h he)))

theorem armEdges_entry {index : Nat} {hasElse always : Bool}
    {continuation : CfgRef} {stack : List ControlContext} {arm : Arm} (h : arm ∈ arms) :
    ({ source := .ast arm.header.armId, target := seqEntry arm.body continuation,
       kind := .sequential } : CfgEdge)
      ∈ armEdges id index hasElse always arms continuation stack := by
  induction arms generalizing index hasElse always with
  | nil => cases h
  | cons a arms ih =>
    obtain ⟨header, body⟩ := a
    simp only [armEdges, List.mem_append, List.mem_cons]
    rcases List.mem_cons.mp h with rfl | h
    · exact .inr (.inl rfl)
    · exact .inr (.inr (.inr (ih h)))

theorem armEdges_taken {index : Nat} {hasElse : Bool} {before after : List Arm}
    {arm : Arm} {continuation : CfgRef} {stack : List ControlContext}
    (hbefore : ∀ a ∈ before, armTruth a.header ≠ some true)
    (harm : armTruth arm.header ≠ some false) :
    ∃ e ∈ armEdges id index hasElse false (before ++ arm :: after) continuation stack,
      e.source = .ast id ∧ e.target = .ast arm.header.armId ∧ e.kind ≠ .handler := by
  induction before generalizing index hasElse with
  | nil =>
    obtain ⟨header, body⟩ := arm
    have harm' : ¬ armTruth header = some false := harm
    refine ⟨{ source := .ast id, target := .ast header.armId, kind := .ifArm,
              conditionText := header.conditionText, branchIndex := some index }, ?_, rfl,
              rfl, by simp⟩
    simp [armEdges, harm']
  | cons a before ih =>
    obtain ⟨header, body⟩ := a
    have ha : ¬ armTruth header = some true := hbefore _ List.mem_cons_self
    obtain ⟨e, he, hsource⟩ := @ih (index + 1) (hasElse || header.armKind = .else)
      fun a h => hbefore a (List.mem_cons_of_mem _ h)
    refine ⟨e, ?_, hsource⟩
    simp only [List.cons_append, armEdges, List.mem_append, List.mem_cons]
    refine .inr (.inr (.inr ?_))
    simpa [ha] using he

theorem armEdges_skipped {index : Nat} {continuation : CfgRef}
    {stack : List ControlContext} (h : CanSkip arms) :
    ({ source := .ast id, target := continuation, kind := .ifNoMatch } : CfgEdge)
      ∈ armEdges id index false false arms continuation stack := by
  induction arms generalizing index with
  | nil => simp [armEdges]
  | cons a arms ih =>
    obtain ⟨header, body⟩ := a
    have ha : ¬ armTruth header = some true := h _ List.mem_cons_self
    have helse : ¬ header.armKind = .else := fun he => ha (by simp [armTruth, he])
    simp only [armEdges, List.mem_append, List.mem_cons]
    refine .inr (.inr (.inr ?_))
    simpa [ha, helse] using ih fun a h' => h a (List.mem_cons_of_mem _ h')

/-! ## Handlers of a procedure -/

mutual

theorem Node.scopeHandlers_subset (n : Node) : n.scopeHandlers ⊆ n.handlers := by
  cases n with
  | simple => exact List.Subset.refl _
  | compound => simp [Node.scopeHandlers]
  | ifRegion id arms => exact scopeHandlersOfArms_subset arms
  | loop id region body => exact scopeHandlersOf_subset body
  | handler id region body => simp [Node.scopeHandlers, Node.handlers]

theorem scopeHandlersOf_subset (code : List Node) : scopeHandlersOf code ⊆ handlersOf code := by
  cases code with
  | nil => exact List.Subset.refl _
  | cons n ns =>
    exact List.append_subset.mpr
      ⟨List.subset_append_of_subset_left _ (Node.scopeHandlers_subset n),
        List.subset_append_of_subset_right _ (scopeHandlersOf_subset ns)⟩

theorem scopeHandlersOfArms_subset (arms : List Arm) :
    scopeHandlersOfArms arms ⊆ handlersOfArms arms := by
  cases arms with
  | nil => exact List.Subset.refl _
  | cons a arms =>
    obtain ⟨header, body⟩ := a
    exact List.append_subset.mpr
      ⟨List.subset_append_of_subset_left _ (scopeHandlersOf_subset body),
        List.subset_append_of_subset_right _ (scopeHandlersOfArms_subset arms)⟩

end

mutual

theorem Node.handlers_body (n : Node) (hh : h ∈ n.handlers) :
    handlersOf h.body ⊆ n.handlers := by
  cases n with
  | simple => cases hh
  | compound id label text body => exact handlersOf_body body hh
  | ifRegion id arms => exact handlersOfArms_body arms hh
  | loop id region body => exact handlersOf_body body hh
  | handler id region body =>
    rcases List.mem_cons.mp hh with rfl | hh
    · exact List.subset_cons_self _ _
    · exact List.subset_cons_of_subset _ (handlersOf_body body hh)

theorem handlersOf_body (code : List Node) (hh : h ∈ handlersOf code) :
    handlersOf h.body ⊆ handlersOf code := by
  cases code with
  | nil => cases hh
  | cons n ns =>
    rcases List.mem_append.mp hh with hh | hh
    · exact List.subset_append_of_subset_left _ (Node.handlers_body n hh)
    · exact List.subset_append_of_subset_right _ (handlersOf_body ns hh)

theorem handlersOfArms_body (arms : List Arm) (hh : h ∈ handlersOfArms arms) :
    handlersOf h.body ⊆ handlersOfArms arms := by
  cases arms with
  | nil => cases hh
  | cons a arms =>
    obtain ⟨header, body⟩ := a
    rcases List.mem_append.mp hh with hh | hh
    · exact List.subset_append_of_subset_left _ (handlersOf_body body hh)
    · exact List.subset_append_of_subset_right _ (handlersOfArms_body arms hh)

end

/-- What is listed arm by arm holds what is listed of each arm. -/
theorem subset_of_arm {β : Type} {list : List Arm → List β} {listArm : Arm → List β}
    (hcons : ∀ a arms, list (a :: arms) = listArm a ++ list arms) {arms : List Arm} {arm : Arm}
    (h : arm ∈ arms) : listArm arm ⊆ list arms := by
  induction arms with
  | nil => cases h
  | cons a arms ih =>
    rw [hcons]
    rcases List.mem_cons.mp h with rfl | h
    · exact List.subset_append_left _ _
    · exact List.subset_append_of_subset_right _ (ih h)

theorem handlersOfArms_arm {arm : Arm} (h : arm ∈ arms) :
    handlersOf arm.body ⊆ handlersOfArms arms := by
  apply subset_of_arm _ h
  rintro ⟨_, _⟩ _
  rfl

variable {scopes : List (List Handler)}

theorem armBindings_arm {successors : CfgRef → Option CfgRef} {arm : Arm} (h : arm ∈ arms) :
    seqBindings successors scopes arm.body ⊆ armBindings successors scopes arms := by
  apply subset_of_arm _ h
  rintro ⟨_, _⟩ _
  rfl

theorem statementsOfArms_arm {arm : Arm} (h : arm ∈ arms) :
    statementsOf arm.body ⊆ statementsOfArms arms := by
  apply subset_of_arm _ h
  rintro ⟨_, _⟩ _
  rfl

theorem statementsOf_arm {arm : Arm}
    (h : arm ∈ arms) : statementsOf (arm.body ++ ns) ⊆ statementsOf (.ifRegion id arms :: ns) := by
  rw [statementsOf_append]
  exact List.append_subset.mpr
    ⟨List.subset_append_of_subset_left _ (statementsOfArms_arm h), List.subset_append_right _ _⟩

mutual

theorem Node.statements_handler (n : Node) (hh : h ∈ n.handlers) :
    statementsOf h.body ⊆ n.statements := by
  cases n with
  | simple => cases hh
  | compound id label text body => exact statementsOf_handler body hh
  | ifRegion id arms => exact statementsOfArms_handler arms hh
  | loop id region body => exact statementsOf_handler body hh
  | handler id region body =>
    rcases List.mem_cons.mp hh with rfl | hh
    · exact List.Subset.refl _
    · exact statementsOf_handler body hh

theorem statementsOf_handler (code : List Node) (hh : h ∈ handlersOf code) :
    statementsOf h.body ⊆ statementsOf code := by
  cases code with
  | nil => cases hh
  | cons n ns =>
    rcases List.mem_append.mp hh with hh | hh
    · exact List.subset_append_of_subset_left _ (Node.statements_handler n hh)
    · exact List.subset_append_of_subset_right _ (statementsOf_handler ns hh)

theorem statementsOfArms_handler (arms : List Arm) (hh : h ∈ handlersOfArms arms) :
    statementsOf h.body ⊆ statementsOfArms arms := by
  cases arms with
  | nil => cases hh
  | cons a arms =>
    obtain ⟨header, body⟩ := a
    rcases List.mem_append.mp hh with hh | hh
    · exact List.subset_append_of_subset_left _ (statementsOf_handler body hh)
    · exact List.subset_append_of_subset_right _ (statementsOfArms_handler arms hh)

end

/-! ## Placement -/

/-- The bindings the builder makes for code in these frames. -/
def codeBindings (ast : ProcedureAst) (code : List Node) (k : List Frame) :
    List HandlerFlowBinding :=
  seqBindings (normalSuccessors (structuralEdges ast))
    (activeScopes (procedureScope ast) none k) code

/-- The handler that is being executed. -/
def innermostHandler : List Frame → Option Handler
  | [] => none
  | .handler h _ _ :: _ => some h
  | _ :: k => innermostHandler k

/-- The code is part of the procedure, where the frames say: what the builder adds for it there is
in the graph. Inside a handler it adds no handler edges. -/
structure CodePlaced (ast : ProcedureAst) (code : List Node) (k : List Frame) : Prop where
  edges : seqEdges code (contRef k) (contexts k) ⊆ cfgEdges ast
  bindings : inHandler k = false →
    (codeBindings ast code k).map HandlerFlowBinding.edge ⊆ cfgEdges ast
  handlers : handlersOf code ⊆ handlersOf ast.body
  statements : statementsOf code ⊆ statementsOf ast.body
  owned : ∀ h, innermostHandler k = some h → statementsOf code ⊆ statementsOf h.body

def FramesPlaced (ast : ProcedureAst) : List Frame → Prop
  | [] => True
  | .block _ scope rest :: k =>
    scope ⊆ handlersOf ast.body ∧ CodePlaced ast rest k ∧ FramesPlaced ast k
  | .loop l rest :: k => CodePlaced ast (l.node :: rest) k ∧ FramesPlaced ast k
  | .handler h _ rest :: k =>
    handlersOf h.body ⊆ handlersOf ast.body ∧ CodePlaced ast rest k ∧ FramesPlaced ast k

def Placed (ast : ProcedureAst) : Config → Prop
  | .run code k => CodePlaced ast code k ∧ FramesPlaced ast k
  | .header l _ rest k => CodePlaced ast (l.node :: rest) k ∧ FramesPlaced ast k
  | .returned => True
  | .escaped => True

namespace CodePlaced

variable {n : Node} {code : List Node}

theorem nil : CodePlaced ast [] k where
  edges := by simp [seqEdges]
  bindings _ := by simp [codeBindings, seqBindings]
  handlers := by simp [handlersOf]
  statements := by simp [statementsOf]
  owned _ _ := by simp [statementsOf]

theorem tail (h : CodePlaced ast (n :: ns) k) : CodePlaced ast ns k where
  edges := fun _ he => h.edges (List.mem_append_left _ he)
  bindings hk := by
    intro e he
    refine h.bindings hk ?_
    simp only [codeBindings, seqBindings, List.map_append]
    exact List.mem_append_right _ he
  handlers := fun _ hh => h.handlers (List.mem_append_right _ hh)
  statements := fun _ hs => h.statements (List.mem_append_right _ hs)
  owned hd hk := fun _ hs => h.owned hd hk (List.mem_append_right _ hs)

theorem nodeEdges (h : CodePlaced ast (n :: ns) k) :
    Analysis.nodeEdges n (seqEntry ns (contRef k)) (contexts k) ⊆ cfgEdges ast :=
  fun _ he => h.edges (List.mem_append_right _ he)

theorem compound {id label text body}
    (h : CodePlaced ast (.compound id label text body :: ns) k) :
    CodePlaced ast body (.block label (scopeHandlersOf body) ns :: k) where
  edges := fun _ he => h.nodeEdges (List.mem_append_left _ he)
  bindings hk := by
    intro e he
    refine h.bindings hk ?_
    simp only [codeBindings, seqBindings, nodeBindings, List.map_append]
    exact List.mem_append_left _ he
  handlers := fun _ hh => h.handlers (List.mem_append_left _ hh)
  statements := fun _ hs => h.statements (List.mem_append_left _ hs)
  owned hd hk := fun _ hs => h.owned hd hk (List.mem_append_left _ hs)

theorem loop {l : Loop} (h : CodePlaced ast (l.node :: ns) k) :
    CodePlaced ast l.body (.loop l ns :: k) where
  edges := fun _ he => h.nodeEdges (List.mem_append_left _ he)
  bindings hk := by
    intro e he
    refine h.bindings hk ?_
    simp only [codeBindings, seqBindings, nodeBindings, Loop.node, List.map_append]
    exact List.mem_append_left _ he
  handlers := fun _ hh => h.handlers (List.mem_append_left _ hh)
  statements := fun _ hs => h.statements (List.mem_append_left _ hs)
  owned hd hk := fun _ hs => h.owned hd hk (List.mem_append_left _ hs)

theorem arm {arm : Arm} (h : CodePlaced ast (.ifRegion id arms :: ns) k) (harm : arm ∈ arms) :
    CodePlaced ast (arm.body ++ ns) k where
  edges := by
    rw [seqEdges_append]
    exact List.append_subset.mpr ⟨h.tail.edges,
      fun _ he => h.nodeEdges (armEdges_body harm he)⟩
  bindings hk := by
    have hns := h.tail.bindings hk
    have hnode := h.bindings hk
    simp only [codeBindings, seqBindings, nodeBindings, seqBindings_append, List.map_append]
      at hns hnode ⊢
    refine List.append_subset.mpr ⟨?_, hns⟩
    exact fun _ he => hnode (List.mem_append_left _ (List.map_subset _ (armBindings_arm harm) he))
  handlers := by
    rw [handlersOf_append]
    refine List.append_subset.mpr ⟨?_, h.tail.handlers⟩
    exact fun _ hh => h.handlers (List.mem_append_left _ (handlersOfArms_arm harm hh))
  statements := fun _ hs => h.statements (statementsOf_arm harm hs)
  owned hd hk := fun _ hs => h.owned hd hk (statementsOf_arm harm hs)

theorem handler {source : Statement}
    (hh : h ∈ handlersOf ast.body) : CodePlaced ast h.body (.handler h source rest :: k) where
  edges := by
    intro e he
    refine List.mem_append_left _ (List.mem_append_right _ (List.mem_cons_of_mem _ ?_))
    exact List.mem_flatMap.mpr ⟨h, hh, List.mem_append_left _ he⟩
  bindings hk := by simp [inHandler] at hk
  handlers := handlersOf_body ast.body hh
  statements := statementsOf_handler ast.body hh
  owned hd hk := by
    obtain rfl := Option.some.inj hk
    exact List.Subset.refl _

end CodePlaced

theorem placed_start (ast : ProcedureAst) : Placed ast (start ast) := by
  refine ⟨⟨?_, ?_, List.Subset.refl _, List.Subset.refl _, nofun⟩, trivial⟩
  · exact fun _ he => List.mem_append_left _ (List.mem_append_left _ he)
  · exact fun _ _ he => List.mem_append_right _ he

/-! ## Going back to a frame -/

/-- Control goes on at one of the frames, and those inside it are gone. -/
inductive Continues : List Frame → Config → Prop where
  | block {label scope rest k} : Continues (.block label scope rest :: k) (.run rest k)
  | loopExit {l rest k} : Continues (.loop l rest :: k) (.run rest k)
  | loopHeader {l rest k} : Continues (.loop l rest :: k) (.header l true rest k)
  | handlerEnd {h source rest k} :
      Continues (.handler h source rest :: k) (.run [] (.handler h source rest :: k))
  | outer {f k c} (h : Continues k c) : Continues (f :: k) c

theorem Continues.frames_suffix {c : Config} (h : Continues k c) :
    frames c <:+ k := by
  induction h with
  | block => exact List.suffix_cons _ _
  | loopExit => exact List.suffix_cons _ _
  | loopHeader => exact List.suffix_cons _ _
  | handlerEnd => exact List.suffix_refl _
  | outer _ ih => exact ih.trans (List.suffix_cons _ _)

theorem Continues.placed {c : Config} (h : Continues k c)
    (hk : FramesPlaced ast k) : Placed ast c := by
  induction h with
  | block => exact hk.2
  | loopExit => exact ⟨hk.1.tail, hk.2⟩
  | loopHeader => exact hk
  | handlerEnd => exact ⟨.nil, hk⟩
  | @outer f k c _ ih =>
    cases f with
    | block => exact ih hk.2.2
    | loop => exact ih hk.2
    | handler => exact ih hk.2.2

theorem exitDeclaring_continues {k k' : List Frame}
    (h : exitDeclaring id k = some (rest, k')) : Continues k (.run rest k') := by
  induction k with
  | nil => simp [exitDeclaring] at h
  | cons f k ih =>
    cases f with
    | block label scope rest' =>
      simp only [exitDeclaring] at h
      split at h
      · obtain ⟨rfl, rfl⟩ : rest' = rest ∧ k = k' := by simpa using h
        exact .block
      · exact .outer (ih h)
    | loop => exact .outer (ih h)
    | handler hd source rest' =>
      simp only [exitDeclaring] at h
      split at h
      · obtain ⟨rfl, rfl⟩ : [] = rest ∧ .handler hd source rest' :: k = k' := by simpa using h
        exact .handlerEnd
      · exact .outer (ih h)

/-- A jump goes on in an enclosing construct. -/
theorem jump_continues {wanted : Option String} {iterate : Bool} {skip : Option NodeRef}
    {c : Config} (h : jump wanted iterate skip k = some c) :
    c = .returned ∨ Continues k c := by
  induction k generalizing skip with
  | nil =>
    left
    cases skip <;> simp only [jump] at h <;> split at h <;> simp_all
  | cons f k ih =>
    have houter : ∀ {skip}, jump wanted iterate skip k = some c → c = .returned ∨
        Continues (f :: k) c := fun h => (ih h).imp_right .outer
    cases f with
    | block label scope rest =>
      have hleave : ∀ {leaves : Prop} [Decidable leaves], (if leaves then some (.run rest k)
          else jump wanted iterate none k) = some c → c = .returned ∨
          Continues (.block label scope rest :: k) c := by
        intro leaves _ h
        split at h
        · obtain rfl := Option.some.inj h
          exact .inr .block
        · exact houter h
      cases skip with
      | none => exact hleave h
      | some id =>
        simp only [jump] at h
        split at h
        · exact hleave h
        · exact houter h
    | loop l rest =>
      cases skip with
      | none =>
        simp only [jump] at h
        split at h
        · obtain rfl := Option.some.inj h
          right
          split
          · exact .loopHeader
          · exact .loopExit
        · exact houter h
      | some id => exact houter h
    | handler hd source rest =>
      cases skip with
      | none => exact houter h
      | some id => exact houter h

@[simp] theorem accepts_blockContext (wanted label : Option String) (iterate : Bool)
    (exit : CfgRef) : ControlContext.accepts wanted iterate (blockContext label exit)
      = (!iterate && labelMatches wanted label) := by
  show (labelMatches wanted label && (!iterate || false)) = _
  rw [Bool.or_false, Bool.and_comm]

@[simp] theorem accepts_loopContext (wanted : Option String) (iterate : Bool) (id : NodeRef)
    (region : LoopRegion) (exit : CfgRef) :
    ControlContext.accepts wanted iterate (loopContext id region exit)
      = labelMatches wanted region.label := by
  show (labelMatches wanted region.label && (!iterate || true)) = _
  rw [Bool.or_true, Bool.and_true]

/-- Outside a handler a jump goes where the builder sends it; so it does inside one, if it names a
construct of the handler's body. -/
theorem jump_pos {wanted : Option String} {iterate : Bool} {c : Config}
    (h : jump wanted iterate none k = some c) :
    pos c = resolveControlTarget wanted iterate (contexts k) ∨
      inHandler k = true ∧ (contexts k).find? (ControlContext.accepts wanted iterate) = none := by
  induction k with
  | nil =>
    left
    simp only [jump] at h
    split at h
    · next hlabel =>
        obtain rfl := Option.some.inj h
        simp only [Bool.and_eq_true, Bool.not_eq_true'] at hlabel
        simp [resolveControlTarget, contexts, pos, hlabel]
    · cases h
  | cons f k ih =>
    cases f with
    | block label scope rest =>
      simp only [jump] at h
      cases hacc : !iterate && labelMatches wanted label with
      | true =>
        rw [if_pos hacc] at h
        obtain rfl := Option.some.inj h
        left
        rw [resolveControlTarget, contexts, List.find?_cons_of_pos (by simpa using hacc)]
        obtain ⟨rfl, -⟩ : iterate = false ∧ _ := by simpa using hacc
        rfl
      | false =>
        rw [if_neg (by simp [hacc])] at h
        simpa [resolveControlTarget, contexts, hacc, inHandler] using ih h
    | loop l rest =>
      simp only [jump] at h
      cases hacc : labelMatches wanted l.region.label with
      | true =>
        rw [if_pos hacc] at h
        obtain rfl := Option.some.inj h
        left
        rw [resolveControlTarget, contexts, List.find?_cons_of_pos (by simpa using hacc)]
        cases iterate with
        | true => rfl
        | false => rfl
      | false =>
        rw [if_neg (by simp [hacc])] at h
        simpa [resolveControlTarget, contexts, hacc, inHandler] using ih h
    | handler => exact .inr ⟨rfl, rfl⟩

/-! ## Every step stays in the procedure -/

theorem activeScopes_subset {skip : Option NodeRef} (hk : FramesPlaced ast k) :
    (activeScopes (procedureScope ast) skip k).flatten ⊆ handlersOf ast.body := by
  induction k generalizing skip with
  | nil =>
    cases skip with
    | none => simpa [activeScopes, procedureScope] using scopeHandlersOf_subset ast.body
    | some id => simp [activeScopes]
  | cons f k ih =>
    cases f with
    | block label scope rest =>
      obtain ⟨hscope, -, hk⟩ := hk
      cases skip with
      | none => exact List.append_subset.mpr ⟨hscope, ih hk⟩
      | some id => exact ih hk
    | loop l rest =>
      cases skip with
      | none => exact ih hk.2
      | some id => exact ih hk.2
    | handler h source rest =>
      obtain ⟨hbody, -, hk⟩ := hk
      cases skip with
      | none =>
        have hscope := List.Subset.trans (scopeHandlersOf_subset h.body) hbody
        exact List.append_subset.mpr ⟨hscope, ih hk⟩
      | some id => exact ih hk

theorem TakesBy.mem {R : Reading} {c : M.Condition} (htakes : TakesBy R M scopes stmt c h) :
    h ∈ scopes.flatten := by
  obtain ⟨inner, scope, outer, before, after, rfl, rfl, -⟩ := htakes
  simp

theorem RaisesAt.frames_eq {a : Config}
    (hat : RaisesAt a id stmt rest k) : Semantics.frames a = k := by
  cases hat with
  | statement => rfl
  | ifCondition => rfl
  | loopCondition => rfl

theorem RaisesAt.placed {a : Config} (hat : RaisesAt a id stmt rest k) (ha : Placed ast a) :
    CodePlaced ast rest k ∧ FramesPlaced ast k := by
  cases hat with
  | statement => exact ⟨ha.1.tail, ha.2⟩
  | ifCondition => exact ⟨ha.1.tail, ha.2⟩
  | loopCondition => exact ⟨ha.1.tail, ha.2⟩

/-- A step stays in the code of the procedure. -/
theorem StepBy.placed {R : Reading} {a b : Config}
    (step : StepBy R M (procedureScope ast) a visits b) (ha : Placed ast a) :
    Placed ast b := by
  cases step with
  | finish => trivial
  | leaveBlock => exact ha.2.2
  | nextIteration => exact ha.2
  | resume => exact ha.2.2
  | exitBlock _ hexit => exact (exitDeclaring_continues hexit).placed ha.2.2.2
  | exitProcedure => trivial
  | declaration => exact ⟨ha.1.tail, ha.2⟩
  | complete => exact ⟨ha.1.tail, ha.2⟩
  | raise hat _ htakes =>
    have hrest := hat.placed ha
    have hmem := activeScopes_subset hrest.2 htakes.mem
    exact ⟨.handler hmem, handlersOf_body ast.body hmem, hrest⟩
  | escape => trivial
  | «return» => trivial
  | jump _ hjump =>
    rcases jump_continues hjump with rfl | hb
    · trivial
    · exact hb.placed ha.2
  | compound =>
    have hscope : ∀ {label : Option String} {text : String} {id : NodeRef} {body ns : List Node}
        {k : List Frame}, CodePlaced ast (.compound id label text body :: ns) k →
        scopeHandlersOf body ⊆ handlersOf ast.body := fun h =>
      List.Subset.trans (scopeHandlersOf_subset _) h.compound.handlers
    exact ⟨ha.1.compound, hscope ha.1, ha.1.tail, ha.2⟩
  | ifArm htake =>
    obtain ⟨before, after, rfl, -⟩ := htake
    exact ⟨ha.1.arm (by simp), ha.2⟩
  | ifNoMatch => exact ⟨ha.1.tail, ha.2⟩
  | loop => exact ha
  | loopBody => exact ⟨ha.1.loop, ha⟩
  | loopExit => exact ⟨ha.1.tail, ha.2⟩

theorem StepBy.not_escaped {R : Reading} {scope : List Handler} {b : Config}
    : ¬ StepBy R M scope .escaped visits b := by
  intro step
  cases step with
  | raise hat => cases hat

/-! ## The handler that takes a condition is bound to its source -/

theorem mem_firstPerKey {seen : List String} {before after : List Handler}
    (hseen : handlerConditionKey h.region ∉ seen)
    (hbefore : ∀ h' ∈ before, handlerConditionKey h'.region ≠ handlerConditionKey h.region) :
    h ∈ firstPerKey seen (before ++ h :: after) := by
  induction before generalizing seen with
  | nil => simp [firstPerKey, hseen]
  | cons h' before ih =>
    have hne := hbefore h' List.mem_cons_self
    have hrest := fun x hx => hbefore x (List.mem_cons_of_mem _ hx)
    simp only [List.cons_append, firstPerKey]
    split
    · exact ih hseen hrest
    · refine List.mem_cons_of_mem _ (ih ?_ hrest)
      simp only [List.mem_cons, not_or]
      exact ⟨fun heq => hne heq.symm, hseen⟩

theorem TakesBy.mem_boundHandlers {c : M.Condition} (htakes : Takes M scopes stmt c h)
    (hkind : stmt.kind ≠ .resignal) : h ∈ boundHandlers scopes stmt := by
  obtain ⟨inner, scope, outer, before, after, rfl, rfl, ⟨hcatches, happlies⟩, hinner, hbefore⟩ :=
    htakes
  have happ : handlerApplies h.region stmt = true := happlies.resolve_right hkind
  simp only [boundHandlers, List.flatten_append, List.flatten_cons, List.append_assoc,
    List.filter_append, List.cons_append, List.filter_cons, happ, if_true]
  rw [← List.append_assoc]
  refine mem_firstPerKey List.not_mem_nil ?_
  -- an earlier applicable handler with the same key would catch the condition itself
  intro h' hh' hkey
  rw [List.mem_append, List.mem_filter, List.mem_filter] at hh'
  have hcatches' := M.respectsKey hkey.symm hcatches
  rcases hh' with ⟨hmem, happ'⟩ | ⟨hmem, happ'⟩
  · exact hinner h' hmem ⟨hcatches', .inl happ'⟩
  · exact hbefore h' hmem hkey ⟨hcatches', .inl happ'⟩

/-! ## Steps and edges -/

/-- A walk in the graph through the nodes visited. A node that completes is not left along a handler
edge. -/
inductive Walk (ast : ProcedureAst) : CfgRef → List Visit → CfgRef → Prop where
  | nil {x} : Walk ast x [] x
  | cons {e : CfgEdge} {node outcome visits y} (he : e ∈ cfgEdges ast)
    (hsource : e.source = .ast node)
      (hkind : outcome = .completed → e.kind ≠ .handler) (rest : Walk ast e.target visits y) :
      Walk ast (.ast node) (⟨node, outcome⟩ :: visits) y

/-- The steps for which the graph has no edges. A run is watched from some configuration on, whose
frames are `base`. -/
inductive Irregular (collate : Char → Nat) (ast : ProcedureAst) (base : List Frame) :
    Config → Config → Prop where
  /-- A jump whose label the builder misreads. -/
  | misreadJump {id stmt ns k c} (hkind : isJump stmt.kind = true)
      (hlabel : spelledLabel stmt.text ≠ jumpLabel stmt.text) :
      Irregular collate ast base (.run (.simple id stmt :: ns) k) c
  /-- An `IF` in which the builder misreads a comparison of literals. -/
  | misreadArm {id arms arm ns k c} (harm : arm ∈ arms)
      (htruth : sqlTruth collate arm.header ≠ armTruth arm.header) :
      Irregular collate ast base (.run (.ifRegion id arms :: ns) k) c
  /-- A condition is raised for a handler to which the builder draws no edge from there. -/
  | unboundRaise {a id stmt rest k h} (hat : RaisesAt a id stmt rest k)
      (hactive : h ∈ (activeScopes (procedureScope ast) none k).flatten)
      (hraises : ¬ Reading.builder.raises h.region stmt) :
      Irregular collate ast base a (.run h.body (.handler h stmt rest :: k))
  /-- A condition raised inside a handler is caught. -/
  | nestedRaise {a id stmt rest k h} (hat : RaisesAt a id stmt rest k) (hin : inHandler k = true) :
      Irregular collate ast base a (.run h.body (.handler h stmt rest :: k))
  /-- An `EXIT` or `UNDO` handler ends and the compound that declares it is followed by more. -/
  | exitBlock {h source rest k rest' k'} (hkind : h.region.handlerKind ≠ .continue)
      (hexit : exitDeclaring h.id k = some (rest', k'))
      (hmore : seqEntry rest' (contRef k') ≠ .normalExit) :
      Irregular collate ast base (.run [] (.handler h source rest :: k)) (.run rest' k')
  /-- A `CONTINUE` handler resumes after the `SIGNAL` it was called for. -/
  | resumeSignal {h source rest k} (hkind : h.region.handlerKind = .continue)
      (hsignal : isSignal source.kind = true) :
      Irregular collate ast base (.run [] (.handler h source rest :: k)) (.run rest k)
  /-- A `CONTINUE` handler that was running at the start ends. -/
  | resumeBase {h source rest k} (hkind : h.region.handlerKind = .continue)
      (hbase : .handler h source rest :: k <:+ base) :
      Irregular collate ast base (.run [] (.handler h source rest :: k)) (.run rest k)
  /-- A jump inside a handler to a construct around it. -/
  | jumpOut {id stmt ns k c} (hkind : isJump stmt.kind = true) (hin : inHandler k = true)
      (hout : (contexts k).find?
        (ControlContext.accepts (jumpLabel stmt.text) (decide (stmt.kind = .iterate))) = none) :
      Irregular collate ast base (.run (.simple id stmt :: ns) k) c

/-! ## Steps the builder foresees -/

section Foreseen

variable {collate : Char → Nat} {scopes : List (List Handler)}
  {stmt : Statement} {c : M.Condition} {h : Handler}

theorem Applicable.sql (happlies : Applicable .builder M stmt c h) :
    Applicable (.sql collate) M stmt c h :=
  ⟨happlies.1, trivial⟩

theorem TakesBy.foreseen (htakes : TakesBy (.sql collate) M scopes stmt c h)
    (hraises : Reading.builder.raises h.region stmt) : Takes M scopes stmt c h := by
  obtain ⟨inner, scope, outer, before, after, rfl, rfl, ⟨hcatches, -⟩, hinner, hbefore⟩ := htakes
  exact ⟨inner, _, outer, before, after, rfl, rfl, ⟨hcatches, hraises⟩,
    fun h' hh' happlies => hinner h' hh' happlies.sql,
    fun h' hh' hkey happlies => hbefore h' hh' hkey happlies.sql⟩

/-- The step that calls a handler pushes a frame. -/
theorem RaisesAt.calls_ne {a : Config} {rest code : List Node} (hat : RaisesAt a id stmt rest k) :
    Semantics.frames (.run code (.handler h stmt rest :: k)) ≠ Semantics.frames a := by
  rw [hat.frames_eq]
  exact List.cons_ne_self _ _

/-- The builder lets only statements raise, and none of those that end the procedure normally. -/
theorem RaisesAt.of_takes {a : Config}
    (hat : RaisesAt a id stmt rest k) (htakes : Takes M scopes stmt c h) :
    a = .run (.simple id stmt :: rest) k ∧
    (isOrdinary stmt.kind = true ∨ isSignal stmt.kind = true) := by
  obtain ⟨_, _, _, _, _, -, -, ⟨-, hraises⟩, -⟩ := htakes
  have hnone : ∀ stmt : Statement, stmt.kind = .opaqueRegion ∨ stmt.kind = .return →
      ¬ Reading.builder.raises h.region stmt := by
    rintro stmt (hkind | hkind) (happlies | hresignal)
    · simp [handlerApplies, isNotFoundSource, isSqlExceptionSource, hkind] at happlies
    · simp [hkind] at hresignal
    · simp [handlerApplies, isNotFoundSource, isSqlExceptionSource, hkind] at happlies
    · simp [hkind] at hresignal
  cases hat with
  | statement hkind =>
    refine ⟨rfl, ?_⟩
    rcases hkind with hkind | hkind | hkind
    · exact .inl hkind
    · exact .inr hkind
    · exact absurd hraises (hnone _ (.inr hkind))
  | ifCondition => exact absurd hraises (hnone _ (.inl rfl))
  | loopCondition => exact absurd hraises (hnone _ (.inl rfl))

/-- A step that is not irregular is one under the builder's reading too. -/
theorem StepBy.foreseen {base : List Frame} {a b : Config}
    (step : StepBy (.sql collate) M (procedureScope ast) a visits b)
    (hreg : ¬ Irregular collate ast base a b) : Step M (procedureScope ast) a visits b := by
  cases step with
  | finish => exact .finish
  | leaveBlock => exact .leaveBlock
  | nextIteration => exact .nextIteration
  | resume hkind => exact .resume hkind
  | exitBlock hkind hexit => exact .exitBlock hkind hexit
  | exitProcedure hkind hexit => exact .exitProcedure hkind hexit
  | declaration hdecl => exact .declaration hdecl
  | complete hkind => exact .complete hkind
  | raise hat hresignal htakes =>
    refine .raise hat hresignal (htakes.foreseen ?_)
    by_contra hraises
    exact hreg (.unboundRaise hat htakes.mem hraises)
  | escape c hkind hfree => exact .escape c hkind fun h hh happlies => hfree h hh happlies.sql
  | «return» hkind => exact .return hkind
  | @jump id stmt ns k c hkind hjump =>
    have hlabel : (Reading.sql collate).label stmt = Reading.builder.label stmt := by
      by_contra hlabel
      exact hreg (.misreadJump hkind hlabel)
    rw [hlabel] at hjump
    exact .jump hkind hjump
  | compound => exact .compound
  | @ifArm id arms arm ns k htake =>
    obtain ⟨before, after, rfl, hbefore, harm⟩ := htake
    have htruth : ∀ a ∈ before ++ arm :: after, sqlTruth collate a.header = armTruth a.header := by
      intro a ha
      by_contra htruth
      exact hreg (.misreadArm ha htruth)
    refine .ifArm ⟨before, after, rfl, fun a ha htrue => hbefore a ha ?_, fun hfalse => harm ?_⟩
    · exact (htruth a (by simp [ha])).trans htrue
    · exact (htruth arm (by simp)).trans hfalse
  | ifNoMatch hskip =>
    refine .ifNoMatch fun a ha => ?_
    by_contra htrue
    exact hreg (.misreadArm ha fun htruth => hskip a ha (htruth.trans htrue))
  | loop => exact .loop
  | loopBody => exact .loopBody
  | loopExit hkind hrepeat => exact .loopExit hkind hrepeat

end Foreseen

/-! ## Edges of a statement -/

theorem statementEdge_target {continuation : CfgRef}
    {stack : List ControlContext} (h : isOrdinary stmt.kind = true) :
    (statementEdge id stmt continuation stack).target = continuation := by
  unfold statementEdge
  split <;> simp_all [isOrdinary]

theorem CodePlaced.statementEdge (h : CodePlaced ast (.simple id stmt :: ns) k)
    (hdecl : (Node.simple id stmt).isDeclaration = false) :
    Analysis.statementEdge id stmt (seqEntry ns (contRef k)) (contexts k) ∈ cfgEdges ast := by
  refine h.nodeEdges ?_
  simp [Analysis.nodeEdges, hdecl]

theorem isDeclaration_of_isOrdinary (id : NodeRef)
    (h : isOrdinary stmt.kind = true) : (Node.simple id stmt).isDeclaration = false := by
  simp only [Node.isDeclaration]
  split <;> simp_all [isOrdinary]

theorem isDeclaration_of_isSignal (id : NodeRef)
    (h : isSignal stmt.kind = true) : (Node.simple id stmt).isDeclaration = false := by
  simp only [Node.isDeclaration]
  split <;> simp_all [isSignal]

theorem isDeclaration_of_isJump (id : NodeRef)
    (h : isJump stmt.kind = true) : (Node.simple id stmt).isDeclaration = false := by
  simp only [Node.isDeclaration]
  split <;> simp_all [isJump]

theorem handlerBody_edge (hh : h ∈ handlersOf ast.body) :
    ({ source := .ast h.id, target := seqEntry h.body (handlerFallthrough h),
       kind := .handlerBody } : CfgEdge) ∈ cfgEdges ast := by
  refine List.mem_append_left _ (List.mem_append_right _ (List.mem_cons_of_mem _ ?_))
  refine List.mem_flatMap.mpr ⟨h, hh, ?_⟩
  simp [handlerEdges]

theorem Walk.single {e : CfgEdge} {node : NodeRef} {outcome : Outcome}
    {y : CfgRef} (he : e ∈ cfgEdges ast) (hsource : e.source = .ast node)
    (hkind : e.kind ≠ .handler) (htarget : e.target = y) :
    Walk ast (.ast node) [⟨node, outcome⟩] y := by
  subst htarget
  exact .cons he hsource (fun _ => hkind) .nil

theorem statementEdge_kind (id : NodeRef) (stmt : Statement) (continuation : CfgRef)
    (stack : List ControlContext) :
    (Analysis.statementEdge id stmt continuation stack).kind ≠ .handler := by
  unfold Analysis.statementEdge
  split <;> simp

@[simp] theorem pos_run_simple (h : (Node.simple id stmt).isDeclaration = false) :
    pos (.run (.simple id stmt :: ns) k) = .ast id := by
  simp [pos, seqEntry, nodeEntry, h, Node.id]

theorem raise_edge {c : M.Condition}
    (ha : Placed ast (.run (.simple id stmt :: ns) k)) (hin : inHandler k = false)
    (hkind : stmt.kind ≠ .resignal)
    (htakes : Takes M (activeScopes (procedureScope ast) none k) stmt c h) :
    ∃ e ∈ cfgEdges ast, e.source = .ast id ∧ e.target = .ast h.id ∧ e.kind = .handler := by
  let binding : HandlerFlowBinding :=
    ⟨id, h, bindingContinuation (normalSuccessors (structuralEdges ast)) id h⟩
  have hedge : binding.edge ∈ cfgEdges ast := by
    refine ha.1.bindings hin (List.mem_map_of_mem ?_)
    exact List.mem_append_left _ (List.mem_map.mpr ⟨h, htakes.mem_boundHandlers hkind, rfl⟩)
  exact ⟨_, hedge, rfl, rfl, rfl⟩

theorem raise_walk {c : M.Condition}
    (ha : Placed ast (.run (.simple id stmt :: ns) k)) (hin : inHandler k = false)
    (hkind : stmt.kind ≠ .resignal)
    (htakes : Takes M (activeScopes (procedureScope ast) none k) stmt c h) :
    Walk ast (.ast id) [⟨id, .raised⟩, ⟨h.id, .completed⟩]
      (pos (.run h.body (.handler h stmt ns :: k))) := by
  have hmem := activeScopes_subset ha.2 htakes.mem
  obtain ⟨e, he, hsource, htarget, -⟩ := raise_edge ha hin hkind htakes
  refine .cons he hsource nofun ?_
  rw [htarget]
  exact .single (handlerBody_edge hmem) rfl (by simp) rfl

/-- A regular step goes along the graph. -/
theorem Step.walk {collate : Char → Nat} {base : List Frame} {a b : Config}
    (step : Step M (procedureScope ast) a visits b) (ha : Placed ast a)
    (hreg : ¬ Irregular collate ast base a b) :
    Walk ast (pos a) visits (pos b) ∨ ∃ h source rest k, a = .run [] (.handler h source rest :: k) ∧
      b = .run rest k ∧ visits = [] ∧ h.region.handlerKind = .continue := by
  cases step with
  | resume hkind => exact .inr ⟨_, _, _, _, rfl, rfl, rfl, hkind⟩
  | finish => exact .inl .nil
  | leaveBlock => exact .inl .nil
  | nextIteration => exact .inl .nil
  | @exitBlock h source rest k rest' k' hkind hexit =>
    left
    have hend : seqEntry rest' (contRef k') = .normalExit := by
      by_contra hmore
      exact hreg (.exitBlock hkind hexit hmore)
    have hstart : pos (.run [] (.handler h source rest :: k)) = .normalExit := by
      simp [pos, seqEntry, contRef, handlerFallthrough, hkind]
    rw [hstart, show pos (.run rest' k') = .normalExit from hend]
    exact .nil
  | @exitProcedure h source rest k hkind hexit =>
    left
    have hstart : pos (.run [] (.handler h source rest :: k)) = .normalExit := by
      simp [pos, seqEntry, contRef, handlerFallthrough, hkind]
    rw [hstart]
    exact .nil
  | declaration hdecl =>
    left
    simp only [pos, seqEntry, nodeEntry, hdecl, if_true]
    exact .nil
  | @complete id stmt ns k hkind =>
    left
    have hdecl := isDeclaration_of_isOrdinary id hkind
    rw [pos_run_simple hdecl]
    exact .single (ha.1.statementEdge hdecl) (statementEdge_source ..) (statementEdge_kind _ _ _ _)
      (statementEdge_target hkind)
  | @raise a id stmt ns k c h hat hresignal htakes =>
    left
    obtain ⟨rfl, hkind⟩ := hat.of_takes htakes
    have hin : inHandler k = false := by
      by_contra hin
      exact hreg (.nestedRaise hat (by simpa using hin))
    have hdecl : (Node.simple id stmt).isDeclaration = false :=
      hkind.elim (isDeclaration_of_isOrdinary id) (isDeclaration_of_isSignal id)
    rw [pos_run_simple hdecl]
    exact raise_walk ha hin (fun h => by simp [hresignal h] at hin) htakes
  | @escape id stmt ns k c hkind hfree =>
    left
    have hdecl := isDeclaration_of_isSignal id hkind
    rw [pos_run_simple hdecl]
    refine .single (ha.1.statementEdge hdecl) (statementEdge_source ..)
      (statementEdge_kind _ _ _ _) ?_
    unfold statementEdge
    split <;> simp_all [isSignal, pos]
  | @«return» id stmt ns k hkind =>
    left
    have hdecl : (Node.simple id stmt).isDeclaration = false := by simp [Node.isDeclaration, hkind]
    rw [pos_run_simple hdecl]
    refine .single (ha.1.statementEdge hdecl) (statementEdge_source ..)
      (statementEdge_kind _ _ _ _) ?_
    simp [statementEdge, hkind, pos]
  | @jump id stmt ns k c hkind hjump =>
    left
    have hdecl := isDeclaration_of_isJump id hkind
    rw [pos_run_simple hdecl]
    refine .single (ha.1.statementEdge hdecl) (statementEdge_source ..)
      (statementEdge_kind _ _ _ _) ?_
    have htarget : pos b = resolveControlTarget (jumpLabel stmt.text)
        (decide (stmt.kind = .iterate)) (contexts k) :=
      (jump_pos hjump).resolve_right fun ⟨hin, hout⟩ => hreg (.jumpOut hkind hin hout)
    rw [htarget]
    unfold statementEdge
    split <;> simp_all [isJump]
  | compound =>
    left
    refine .single (ha.1.nodeEdges (List.mem_append_right _ List.mem_cons_self)) rfl (by simp) rfl
  | @ifArm id arms arm ns k htake =>
    left
    obtain ⟨before, after, rfl, hbefore, harm⟩ := htake
    obtain ⟨e, he, hsource, htarget, hkind⟩ := @armEdges_taken id 0 false before after arm
      (seqEntry ns (contRef k)) (contexts k) hbefore harm
    refine .cons (ha.1.nodeEdges he) hsource (fun _ => hkind) ?_
    rw [htarget]
    refine .single (ha.1.nodeEdges (armEdges_entry (by simp))) rfl (by simp) ?_
    simp [pos, seqEntry_append]
  | ifNoMatch hskip =>
    left
    exact .single (ha.1.nodeEdges (armEdges_skipped hskip)) rfl (by simp) rfl
  | loop => exact .inl .nil
  | loopBody =>
    left
    exact .single (ha.1.nodeEdges (List.mem_append_right _ List.mem_cons_self)) rfl (by simp) rfl
  | @loopExit l again rest k hkind hrepeat =>
    left
    let e : CfgEdge :=
      { source := .ast l.id, target := seqEntry rest (contRef k), kind := .loopExit,
        conditionText := negatedCondition l.region.conditionText }
    have he : e ∈ cfgEdges ast := by
      refine ha.1.nodeEdges (List.mem_append_right _ (List.mem_cons_of_mem _ ?_))
      rw [if_neg hkind]
      exact List.mem_cons_self
    exact .single he rfl (by simp [e]) rfl

/-! ## Sets closed under edges -/

/-- `R` is closed under the edges of the graph, except those out of the avoided nodes. -/
def ClosedUnless (ast : ProcedureAst) (avoid : NodeRef → Prop) (R : CfgRef → Prop) : Prop :=
  ∀ e ∈ cfgEdges ast, ∀ node, e.source = .ast node → R (.ast node) → ¬ avoid node → R e.target

/-- The place is in `R`, and so is the place where a `CONTINUE` handler called since the start will
resume. -/
structure Tracked (R : CfgRef → Prop) (base : List Frame) (c : Config) : Prop where
  here : R (pos c)
  resumes : ∀ {h source rest k}, .handler h source rest :: k <:+ frames c →
    h.region.handlerKind = .continue → isSignal source.kind = false →
    .handler h source rest :: k <:+ base ∨ R (seqEntry rest (contRef k))

section Closed

variable {collate : Char → Nat} {avoid : NodeRef → Prop}
  {R : CfgRef → Prop}
  {base : List Frame} {a b : Config} {visits : List Visit}

theorem Walk.target_mem {x y : CfgRef} (hclosed : ClosedUnless ast avoid R)
    (walk : Walk ast x visits y) (hx : R x) (hgood : ∀ v ∈ visits, ¬ avoid v.node) : R y := by
  induction walk with
  | nil => exact hx
  | @cons e node outcome visits y he hsource _ _ ih =>
    have hnode := hgood ⟨node, outcome⟩ List.mem_cons_self
    exact ih (hclosed e he node hsource hx hnode) fun v hv => hgood v (List.mem_cons_of_mem _ hv)

theorem Walk.visit_mem {x y : CfgRef} {v : Visit} {before after : List Visit}
    (hclosed : ClosedUnless ast avoid R) (walk : Walk ast x (before ++ v :: after) y) (hx : R x)
    (hgood : ∀ u ∈ before, ¬ avoid u.node) : R (.ast v.node) := by
  induction before generalizing x with
  | nil =>
    cases walk
    exact hx
  | cons u before ih =>
    cases walk with
    | @cons e node outcome _ _ he hsource _ rest =>
      have hnode := hgood ⟨node, outcome⟩ List.mem_cons_self
      exact ih rest (hclosed e he node hsource hx hnode)
        fun v hv => hgood v (List.mem_cons_of_mem _ hv)

/-- What a step does to the frames. -/
theorem Step.frames_cases (step : Step M (procedureScope ast) a visits b) :
    frames b <:+ frames a ∨
    (∃ f, frames b = f :: frames a ∧ ∀ h source rest, f ≠ .handler h source rest) ∨
    ∃ id stmt ns k h, a = .run (.simple id stmt :: ns) k ∧
      b = .run h.body (.handler h stmt ns :: k) ∧ visits = [⟨id, .raised⟩, ⟨h.id, .completed⟩] ∧
      (isOrdinary stmt.kind = true ∨ isSignal stmt.kind = true) ∧
      h ∈ (activeScopes (procedureScope ast) none k).flatten := by
  cases step with
  | finish => exact .inl (List.suffix_refl _)
  | leaveBlock => exact .inl (List.suffix_cons _ _)
  | nextIteration => exact .inl (List.suffix_cons _ _)
  | resume => exact .inl (List.suffix_cons _ _)
  | exitBlock _ hexit =>
    have hk := (exitDeclaring_continues hexit).frames_suffix
    exact .inl (hk.trans (List.suffix_cons _ _))
  | exitProcedure => exact .inl (List.nil_suffix)
  | declaration => exact .inl (List.suffix_refl _)
  | complete => exact .inl (List.suffix_refl _)
  | raise hat _ htakes =>
    obtain ⟨rfl, hkind⟩ := hat.of_takes htakes
    exact .inr (.inr ⟨_, _, _, _, _, rfl, rfl, rfl, hkind, htakes.mem⟩)
  | escape => exact .inl (List.nil_suffix)
  | «return» => exact .inl (List.nil_suffix)
  | jump _ hjump =>
    rcases jump_continues hjump with rfl | hb
    · exact .inl (List.nil_suffix)
    · exact .inl hb.frames_suffix
  | compound => exact .inr (.inl ⟨_, rfl, by simp⟩)
  | ifArm => exact .inl (List.suffix_refl _)
  | ifNoMatch => exact .inl (List.suffix_refl _)
  | loop => exact .inl (List.suffix_refl _)
  | loopBody => exact .inr (.inl ⟨_, rfl, by simp⟩)
  | loopExit => exact .inl (List.suffix_refl _)

theorem resume_mem
    (hclosed : ClosedUnless ast avoid R) (ha : CodePlaced ast (.simple id stmt :: ns) k)
    (hkind : isOrdinary stmt.kind = true) (hid : R (.ast id)) (hgood : ¬ avoid id) :
    R (seqEntry ns (contRef k)) := by
  have hdecl := isDeclaration_of_isOrdinary id hkind
  have hedge := hclosed _ (ha.statementEdge hdecl) id (statementEdge_source ..) hid hgood
  rwa [statementEdge_target hkind] at hedge

/-- A step keeps what a closed set tracks. -/
theorem Step.tracked (hclosed : ClosedUnless ast avoid R)
    (step : Step M (procedureScope ast) a visits b) (hreg : ¬ Irregular collate ast base a b)
    (ha : Placed ast a) (hgood : ∀ v ∈ visits, ¬ avoid v.node) (ht : Tracked R base a) :
    Tracked R base b where
  here := by
    rcases Step.walk step ha hreg with hwalk | ⟨h, source, rest, k, rfl, rfl, -, hkind⟩
    · exact hwalk.target_mem hclosed ht.here hgood
    -- a CONTINUE handler ends: it was called since the start and not for a SIGNAL
    · have hsource : isSignal source.kind = false := by
        by_contra hsignal
        exact hreg (.resumeSignal hkind (by simpa using hsignal))
      rcases ht.resumes (List.suffix_refl _) hkind hsource with hbase | hrest
      · exact absurd (.resumeBase hkind hbase) hreg
      · exact hrest
  resumes := by
    intro h source rest k hsuffix hkind hsource
    rcases Step.frames_cases step with
      hdrop | ⟨f, hpush, hf⟩ | ⟨id, stmt, ns, k', h', rfl, rfl, rfl, hk', -⟩
    · exact ht.resumes (hsuffix.trans hdrop) hkind hsource
    · rw [hpush, List.suffix_cons_iff] at hsuffix
      rcases hsuffix with heq | hsuffix
      · exact absurd (List.cons.inj heq).1.symm (hf h source rest)
      · exact ht.resumes hsuffix hkind hsource
    · rcases List.suffix_cons_iff.mp hsuffix with heq | hsuffix
      · obtain ⟨hframe, rfl⟩ := List.cons.inj heq
        obtain ⟨rfl, rfl, rfl⟩ : h = h' ∧ source = stmt ∧ rest = ns := by simpa using hframe
        have hordinary : isOrdinary source.kind = true := hk'.resolve_right (by simp [hsource])
        have hhere : R (.ast id) := by
          have hpos := ht.here
          rwa [pos_run_simple (isDeclaration_of_isOrdinary id hordinary)] at hpos
        exact .inr (resume_mem hclosed ha.1 hordinary hhere (hgood ⟨id, .raised⟩ (by simp)))
      · exact ht.resumes hsuffix hkind hsource

end Closed

/-! ## Runs -/

/-- A step of an execution for which the graph has the edges. -/
def RegularStep (collate : Char → Nat) (M : ConditionModel) (ast : ProcedureAst)
    (base : List Frame) (a : Config) (visits : List Visit) (b : Config) : Prop :=
  StepBy (.sql collate) M (procedureScope ast) a visits b ∧ ¬ Irregular collate ast base a b

namespace RegularStep

variable {collate : Char → Nat} {base : List Frame}
  {a b : Config} {visits : List Visit} {id : NodeRef} {stmt : Statement} {ns : List Node}

theorem foreseen (step : RegularStep collate M ast base a visits b) :
    Step M (procedureScope ast) a visits b :=
  step.1.foreseen step.2

theorem walk (step : RegularStep collate M ast base a visits b) (ha : Placed ast a) :
    Walk ast (pos a) visits (pos b) ∨ ∃ h source rest k, a = .run [] (.handler h source rest :: k) ∧
      b = .run rest k ∧ visits = [] ∧ h.region.handlerKind = .continue :=
  Step.walk step.foreseen ha step.2

theorem finish : RegularStep collate M ast base (.run [] []) [] .returned :=
  ⟨.finish, nofun⟩

theorem declaration {n : Node} (hdecl : n.isDeclaration = true) :
    RegularStep collate M ast base (.run (n :: ns) k) [] (.run ns k) := by
  refine ⟨.declaration hdecl, fun h => ?_⟩
  have hframes : Semantics.frames (.run ns k) = k := rfl
  generalize Config.run ns k = b at h hframes
  cases h with
  | misreadJump hkind => simp [isDeclaration_of_isJump _ hkind] at hdecl
  | misreadArm => simp [Node.isDeclaration] at hdecl
  | unboundRaise hat => exact hat.calls_ne hframes
  | nestedRaise hat => exact hat.calls_ne hframes
  | jumpOut hkind => simp [isDeclaration_of_isJump _ hkind] at hdecl

theorem isJump_of_isOrdinary {kind : StatementKind} (h : isOrdinary kind = true) :
    isJump kind = false := by
  revert h
  cases kind <;> simp [isOrdinary, isJump]

theorem complete (hkind : isOrdinary stmt.kind = true) :
    RegularStep collate M ast base (.run (.simple id stmt :: ns) k) [⟨id, .completed⟩]
      (.run ns k) := by
  refine ⟨.complete hkind, fun h => ?_⟩
  have hframes : Semantics.frames (.run ns k) = k := rfl
  generalize Config.run ns k = b at h hframes
  cases h with
  | misreadJump hjump => simp [isJump_of_isOrdinary hkind] at hjump
  | unboundRaise hat => exact hat.calls_ne hframes
  | nestedRaise hat => exact hat.calls_ne hframes
  | jumpOut hjump => simp [isJump_of_isOrdinary hkind] at hjump

theorem raise {c : M.Condition} (hkind : isOrdinary stmt.kind = true)
    (hin : inHandler k = false) (happlies : handlerApplies h.region stmt = true)
    (htakes : TakesBy (.sql collate) M (activeScopes (procedureScope ast) none k) stmt c h) :
    RegularStep collate M ast base (.run (.simple id stmt :: ns) k)
      [⟨id, .raised⟩, ⟨h.id, .completed⟩] (.run h.body (.handler h stmt ns :: k)) := by
  have hresignal : stmt.kind = .resignal → inHandler k = true := fun h => by
    simp [h, isOrdinary] at hkind
  refine ⟨.raise (.statement (.inl hkind)) hresignal htakes, fun hirregular => ?_⟩
  generalize hb : Config.run h.body (.handler h stmt ns :: k) = b at hirregular
  cases hirregular with
  | misreadJump hjump => simp [isJump_of_isOrdinary hkind] at hjump
  | unboundRaise hat _ hraises =>
    injection hb with _ hframes
    injection (List.cons.inj hframes).1 with hhandler hsource
    subst hhandler hsource
    exact hraises (.inl happlies)
  | nestedRaise hat hin' =>
    cases hat
    simp [hin] at hin'
  | jumpOut _ hin' => simp [hin] at hin'

theorem resume {source : Statement}
    (hkind : h.region.handlerKind = .continue) (hsource : isSignal source.kind = false)
    (hbase : ¬ .handler h source rest :: k <:+ base) :
    RegularStep collate M ast base (.run [] (.handler h source rest :: k)) [] (.run rest k) := by
  refine ⟨.resume hkind, fun hirregular => ?_⟩
  generalize hb : Config.run rest k = b at hirregular
  cases hirregular with
  | unboundRaise hat => cases hat
  | nestedRaise hat => cases hat
  | exitBlock hexit => exact hexit hkind
  | resumeSignal _ hsignal => simp [hsource] at hsignal
  | resumeBase _ hsuffix => exact hbase hsuffix

end RegularStep

theorem placed_run {R : Reading} {a b : Config}
    (run : StepsBy R M (procedureScope ast) a visits b) (ha : Placed ast a) :
    Placed ast b :=
  run.invariant (fun step => step.placed) ha

section Runs

variable {collate : Char → Nat} {avoid : NodeRef → Prop}
  {R : CfgRef → Prop} {base : List Frame} {a b : Config} {visits : List Visit}

theorem run_tracked (hclosed : ClosedUnless ast avoid R)
    (run : Run (RegularStep collate M ast base) a visits b) (ha : Placed ast a)
    (ht : Tracked R base a)
    (hgood : ∀ v ∈ visits, ¬ avoid v.node) : Placed ast b ∧ Tracked R base b := by
  refine run.invariant_of_labels (I := fun c => Placed ast c ∧ Tracked R base c) ?_ hgood ⟨ha, ht⟩
  rintro a visits b step hgood ⟨ha, ht⟩
  exact ⟨step.1.placed ha, Step.tracked hclosed step.foreseen step.2 ha hgood ht⟩

theorem run_visit_mem {v : Visit} {before after : List Visit} (hclosed : ClosedUnless ast avoid R)
    (run : Run (RegularStep collate M ast base) a (before ++ v :: after) b) (ha : Placed ast a)
    (ht : Tracked R base a) (hgood : ∀ u ∈ before, ¬ avoid u.node) : R (.ast v.node) := by
  obtain ⟨s, s', first, inner, inner', last, hfirst, step, -, rfl, -⟩ := run.at_label rfl
  obtain ⟨hs, hts⟩ := run_tracked hclosed hfirst ha ht
    fun u hu => hgood u (List.mem_append_left _ hu)
  rcases step.walk hs with hwalk | ⟨h, source, rest, k, -, -, hnil, -⟩
  · exact hwalk.visit_mem hclosed hts.here fun u hu => hgood u (List.mem_append_right _ hu)
  · simp at hnil

theorem tracked_base (c : Config) (h : R (pos c)) : Tracked R (frames c) c :=
  ⟨h, fun hsuffix _ _ => .inl hsuffix⟩

end Runs

end AtlasDb.Semantics
