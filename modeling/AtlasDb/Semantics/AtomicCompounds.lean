import AtlasDb.Analysis.Flows
import AtlasDb.Analysis.HandlerFlow
import AtlasDb.Semantics.Observability

/-!
# Atomic compounds

The statements of an atomic region are those of a `BEGIN ATOMIC` compound that are in no inner
region of it. A loop around the compound leads from each of them to each other; but within one
activation of the compound, from its node to the next time it is entered, the graph passes them in
the order of the source (`atomic_order`).
-/

namespace AtlasDb.Semantics

open Core Lib Parsing Analysis

/-! ## The flows of a procedure -/

/-- The sequences the graph is built from, each with where it ends. -/
def flowsOf (ast : ProcedureAst) : List (List Node × CfgRef) :=
  (ast.body, .normalExit) :: (handlersOf ast.body).map fun h => (h.body, handlerFallthrough h)

variable {ast : ProcedureAst}

theorem flow_continuation {flow : List Node × CfgRef}
    (hflow : flow ∈ flowsOf ast) (r : NodeRef) : flow.2 ≠ .ast r := by
  rcases List.mem_cons.mp hflow with rfl | hflow
  · nofun
  · obtain ⟨h, -, rfl⟩ := List.mem_map.mp hflow
    show handlerFallthrough h ≠ .ast r
    unfold handlerFallthrough
    split <;> nofun

theorem cfgEdges_flow {e : CfgEdge} (he : e ∈ cfgEdges ast) :
    (∃ flow ∈ flowsOf ast, e ∈ seqEdges flow.1 flow.2 [] ∨ e.target = seqEntry flow.1 flow.2) ∨
      (∀ r, e.target ≠ .ast r) ∨ ∃ h ∈ handlersOf ast.body, e.target = .ast h.id := by
  rcases List.mem_append.mp he with he | he
  · rcases List.mem_append.mp he with he | he
    · exact .inl ⟨_, List.mem_cons_self, .inl he⟩
    rcases List.mem_cons.mp he with rfl | he
    · exact .inl ⟨_, List.mem_cons_self, .inr rfl⟩
    obtain ⟨h, hh, he⟩ := List.mem_flatMap.mp he
    have hflow : (h.body, handlerFallthrough h) ∈ flowsOf ast :=
      List.mem_cons_of_mem _ (List.mem_map.mpr ⟨h, hh, rfl⟩)
    rcases List.mem_append.mp he with he | he
    · exact .inl ⟨_, hflow, .inl he⟩
    rcases List.mem_cons.mp he with rfl | he
    · exact .inl ⟨_, hflow, .inr rfl⟩
    split at he
    · rw [List.mem_singleton.mp he]
      exact .inr (.inl (flow_continuation hflow))
    · cases he
  · obtain ⟨b, hb, rfl⟩ := List.mem_map.mp he
    obtain ⟨-, hmem⟩ := seqBindings_mem ast.body hb
    refine .inr (.inr ⟨b.handler, ?_, rfl⟩)
    rcases hmem with hmem | hmem
    · exact scopeHandlersOf_subset ast.body (by simpa [procedureScopes] using hmem)
    · exact hmem

/-! ## Compounds -/

mutual

/-- The compounds of a subtree that are in no handler of it, with their bodies. -/
def nodeFlowCompounds : Node → List (NodeRef × List Node)
  | .simple _ _ => []
  | .compound id _ _ body => (id, body) :: flowCompounds body
  | .ifRegion _ arms => armFlowCompounds arms
  | .loop _ _ body => flowCompounds body
  | .handler _ _ _ => []

def flowCompounds : List Node → List (NodeRef × List Node)
  | [] => []
  | n :: ns => nodeFlowCompounds n ++ flowCompounds ns

def armFlowCompounds : List Arm → List (NodeRef × List Node)
  | [] => []
  | .mk _ body :: arms => flowCompounds body ++ armFlowCompounds arms

end

mutual

theorem nodeFlowCompounds_sublist (n : Node) :
    ((nodeFlowCompounds n).map Prod.fst).Sublist (nodeFlowRefs n) := by
  cases n with
  | simple => exact List.nil_sublist _
  | compound id label text body => exact (flowCompounds_sublist body).cons_cons id
  | ifRegion id arms => exact (armFlowCompounds_sublist arms).cons id
  | loop id region body => exact (flowCompounds_sublist body).cons id
  | handler => exact List.nil_sublist _

theorem flowCompounds_sublist (code : List Node) :
    ((flowCompounds code).map Prod.fst).Sublist (flowRefs code) := by
  cases code with
  | nil => exact List.nil_sublist _
  | cons n ns =>
    rw [flowCompounds, List.map_append, flowRefs]
    exact (nodeFlowCompounds_sublist n).append (flowCompounds_sublist ns)

theorem armFlowCompounds_sublist (arms : List Arm) :
    ((armFlowCompounds arms).map Prod.fst).Sublist (armFlowRefs arms) := by
  cases arms with
  | nil => exact List.nil_sublist _
  | cons a arms =>
    obtain ⟨header, body⟩ := a
    rw [armFlowCompounds, List.map_append, armFlowRefs]
    exact ((flowCompounds_sublist body).append (armFlowCompounds_sublist arms)).cons _

end

section Inside

variable {region : NodeRef} {inner : List Node}

mutual

theorem nodeFlowCompounds_body (n : Node) (h : (region, inner) ∈ nodeFlowCompounds n) :
    (region :: flowRefs inner).Sublist (nodeFlowRefs n) := by
  cases n with
  | simple => cases h
  | compound id label text body =>
    rcases List.mem_cons.mp h with h | h
    · cases h
      exact .refl _
    · exact (flowCompounds_body body h).cons id
  | ifRegion id arms => exact (armFlowCompounds_body arms h).cons id
  | loop id region body => exact (flowCompounds_body body h).cons id
  | handler => cases h

theorem flowCompounds_body (code : List Node) (h : (region, inner) ∈ flowCompounds code) :
    (region :: flowRefs inner).Sublist (flowRefs code) := by
  cases code with
  | nil => cases h
  | cons n ns =>
    rcases List.mem_append.mp h with h | h
    · exact (nodeFlowCompounds_body n h).trans (List.sublist_append_left _ _)
    · exact (flowCompounds_body ns h).trans (List.sublist_append_right _ _)

theorem armFlowCompounds_body (arms : List Arm) (h : (region, inner) ∈ armFlowCompounds arms) :
    (region :: flowRefs inner).Sublist (armFlowRefs arms) := by
  cases arms with
  | nil => cases h
  | cons a arms =>
    obtain ⟨header, body⟩ := a
    rcases List.mem_append.mp h with h | h
    · exact ((flowCompounds_body body h).trans (List.sublist_append_left _ _)).cons _
    · exact ((armFlowCompounds_body arms h).trans (List.sublist_append_right _ _)).cons _

end

/-- A place that is no node of the body. -/
def Outside (inner : List Node) (r : CfgRef) : Prop := ∀ t ∈ flowRefs inner, r ≠ .ast t

theorem outside_of_notMem {r : NodeRef} (h : r ∉ flowRefs inner) : Outside inner (.ast r) := by
  rintro t ht ⟨⟩
  exact h ht

theorem outside_of_disjoint {refs : List NodeRef} (h : refs.Disjoint (flowRefs inner)) :
    ∀ r ∈ refs, Outside inner (.ast r) := fun _ hr => outside_of_notMem (h hr)

theorem outside_jumps : JumpsSatisfy (Outside inner) [] where
  normal := fun _ _ => nofun
  exceptional := fun _ _ => nofun
  contexts := fun _ h => absurd h List.not_mem_nil

theorem id_notMem_inner {n : Node} (h : (region, inner) ∈ nodeFlowCompounds n)
    (hdistinct : (nodeFlowRefs n).Nodup) : n.isDeclaration = false ∧ n.id ∉ flowRefs inner := by
  cases n with
  | simple => cases h
  | compound id label text body =>
    obtain ⟨hid, -⟩ := List.nodup_cons.mp hdistinct
    refine ⟨rfl, fun ht => hid ?_⟩
    rcases List.mem_cons.mp h with h | h
    · cases h
      exact ht
    · exact (flowCompounds_body body h).subset (List.mem_cons_of_mem _ ht)
  | ifRegion id arms =>
    obtain ⟨hid, -⟩ := List.nodup_cons.mp hdistinct
    exact ⟨rfl, fun ht => hid ((armFlowCompounds_body arms h).subset (List.mem_cons_of_mem _ ht))⟩
  | loop id region body =>
    obtain ⟨hid, -⟩ := List.nodup_cons.mp hdistinct
    exact ⟨rfl, fun ht => hid ((flowCompounds_body body h).subset (List.mem_cons_of_mem _ ht))⟩
  | handler => cases h

theorem seqEntry_outside {code : List Node} {continuation : CfgRef}
    (h : (region, inner) ∈ flowCompounds code) (hdistinct : (flowRefs code).Nodup) :
    Outside inner (seqEntry code continuation) := by
  induction code with
  | nil => cases h
  | cons n ns ih =>
    obtain ⟨hn, hns, hdisjoint⟩ := List.nodup_append'.mp hdistinct
    rw [seqEntry, nodeEntry]
    rcases List.mem_append.mp h with h | h
    · obtain ⟨hdecl, hid⟩ := id_notMem_inner h hn
      rw [hdecl]
      exact outside_of_notMem hid
    · have hbody := (flowCompounds_body ns h).subset
      split
      · exact ih h hns
      · next hdecl =>
          refine outside_of_notMem fun ht => hdisjoint (id_mem_nodeFlowRefs ?_)
            (hbody (List.mem_cons_of_mem _ ht))
          simpa using hdecl

/-- The edge enters the body from the compound, or it was added for the body. -/
def EntersFrom (region : NodeRef) (inner : List Node) (e : CfgEdge) : Prop :=
  e.source = .ast region ∨ ∃ continuation stack, Outside inner continuation ∧
    JumpsSatisfy (Outside inner) stack ∧ e ∈ seqEdges inner continuation stack

mutual

/-- Control enters a compound from its own region only. -/
theorem nodeEdges_enter (n : Node) {continuation : CfgRef} {stack : List ControlContext}
    (h : (region, inner) ∈ nodeFlowCompounds n) (hdistinct : (nodeFlowRefs n).Nodup)
    (hcont : Outside inner continuation) (hstack : JumpsSatisfy (Outside inner) stack) :
    ∀ e ∈ nodeEdges n continuation stack, Outside inner e.target ∨ EntersFrom region inner e := by
  intro e he
  cases n with
  | simple => cases h
  | compound id label text body =>
    obtain ⟨hid, hdistinct⟩ := List.nodup_cons.mp hdistinct
    rcases List.mem_cons.mp h with h | h
    · cases h
      rcases List.mem_append.mp he with he | he
      · exact .inr (.inr ⟨_, _, hcont, hstack.block hcont, he⟩)
      · rw [List.mem_singleton.mp he]
        exact .inr (.inl rfl)
    rcases List.mem_append.mp he with he | he
    · exact seqEdges_enter body h hdistinct hcont (hstack.block hcont) e he
    · rw [List.mem_singleton.mp he]
      exact .inl (seqEntry_outside h hdistinct)
  | ifRegion id arms =>
    obtain ⟨-, hdistinct⟩ := List.nodup_cons.mp hdistinct
    exact armEdges_enter id 0 false false arms h hdistinct hcont hstack e he
  | loop id region body =>
    obtain ⟨hid, hdistinct⟩ := List.nodup_cons.mp hdistinct
    have hheader : Outside inner (.ast id) := outside_of_notMem fun ht =>
      hid ((flowCompounds_body body h).subset (List.mem_cons_of_mem _ ht))
    rcases List.mem_append.mp he with he | he
    · exact seqEdges_enter body h hdistinct hheader (hstack.loop hheader hcont) e he
    rcases List.mem_cons.mp he with rfl | he
    · exact .inl (seqEntry_outside h hdistinct)
    split at he
    · cases he
    · rw [List.mem_singleton.mp he]
      exact .inl hcont
  | handler => cases h

/-- An edge of a flow that enters the body of a compound of the flow comes from the compound or was
added for the body. -/
theorem seqEdges_enter (code : List Node) {continuation : CfgRef} {stack : List ControlContext}
    (h : (region, inner) ∈ flowCompounds code) (hdistinct : (flowRefs code).Nodup)
    (hcont : Outside inner continuation) (hstack : JumpsSatisfy (Outside inner) stack) :
    ∀ e ∈ seqEdges code continuation stack, Outside inner e.target ∨ EntersFrom region inner e := by
  intro e he
  cases code with
  | nil => cases h
  | cons n ns =>
    obtain ⟨hn, hns, hdisjoint⟩ := List.nodup_append'.mp hdistinct
    rcases List.mem_append.mp h with h | h
    · have hbody := (nodeFlowCompounds_body n h).subset
      have hrest : ∀ r ∈ flowRefs ns, Outside inner (.ast r) :=
        outside_of_disjoint fun r hr ht => hdisjoint (hbody (List.mem_cons_of_mem _ ht)) hr
      rcases List.mem_append.mp he with he | he
      · exact .inl (seqEdges_target ns hrest hcont hstack e he)
      · exact nodeEdges_enter n h hn (seqEntry_satisfies_flow hrest hcont) hstack e he
    · have hbody := (flowCompounds_body ns h).subset
      rcases List.mem_append.mp he with he | he
      · exact seqEdges_enter ns h hns hcont hstack e he
      · refine .inl (nodeEdges_target n ?_ (seqEntry_outside h hns) hstack e he)
        exact outside_of_disjoint fun r hr ht => hdisjoint hr (hbody (List.mem_cons_of_mem _ ht))

theorem armEdges_enter (id : NodeRef) (index : Nat) (hasElse always : Bool) (arms : List Arm)
    {continuation : CfgRef} {stack : List ControlContext}
    (h : (region, inner) ∈ armFlowCompounds arms) (hdistinct : (armFlowRefs arms).Nodup)
    (hcont : Outside inner continuation) (hstack : JumpsSatisfy (Outside inner) stack) :
    ∀ e ∈ armEdges id index hasElse always arms continuation stack,
      Outside inner e.target ∨ EntersFrom region inner e := by
  intro e he
  cases arms with
  | nil => cases h
  | cons a arms =>
    obtain ⟨header, body⟩ := a
    have hheader : Outside inner (.ast header.armId) := by
      obtain ⟨hheader, -⟩ := List.nodup_cons.mp hdistinct
      refine outside_of_notMem fun ht => hheader ?_
      rcases List.mem_append.mp h with h | h
      · exact List.mem_append_left _
          ((flowCompounds_body body h).subset (List.mem_cons_of_mem _ ht))
      · exact List.mem_append_right _
          ((armFlowCompounds_body arms h).subset (List.mem_cons_of_mem _ ht))
    obtain ⟨-, hdistinct⟩ := List.nodup_cons.mp hdistinct
    obtain ⟨hbody, harms, hdisjoint⟩ := List.nodup_append'.mp hdistinct
    -- The edge from the region to the arm is the same in both cases.
    have harm : ∀ e ∈ (if always || armTruth header = some false then []
        else [({ source := .ast id, target := .ast header.armId, kind := .ifArm,
                 conditionText := header.conditionText, branchIndex := some index } : CfgEdge)]),
        Outside inner e.target := by
      intro e he
      split at he
      · cases he
      · rw [List.mem_singleton.mp he]
        exact hheader
    rcases List.mem_append.mp h with h | h
    · have hinner := (flowCompounds_body body h).subset
      rcases List.mem_append.mp he with he | he
      · exact seqEdges_enter body h hbody hcont hstack e he
      rcases List.mem_cons.mp he with rfl | he
      · exact .inl (seqEntry_outside h hbody)
      rcases List.mem_append.mp he with he | he
      · exact .inl (harm e he)
      · refine .inl (armEdges_target id _ _ _ arms ?_ hcont hstack e he)
        exact outside_of_disjoint fun r hr ht => hdisjoint (hinner (List.mem_cons_of_mem _ ht)) hr
    · have hinner := (armFlowCompounds_body arms h).subset
      have hrest : ∀ r ∈ flowRefs body, Outside inner (.ast r) :=
        outside_of_disjoint fun r hr ht => hdisjoint hr (hinner (List.mem_cons_of_mem _ ht))
      rcases List.mem_append.mp he with he | he
      · exact .inl (seqEdges_target body hrest hcont hstack e he)
      rcases List.mem_cons.mp he with rfl | he
      · exact .inl (seqEntry_satisfies_flow hrest hcont)
      rcases List.mem_append.mp he with he | he
      · exact .inl (harm e he)
      · exact armEdges_enter id _ _ _ arms h harms hcont hstack e he

end

end Inside

/-! ## Statements that are in no inner region -/

/-- The statement stands in the sequence or in compounds nested in it, but in no loop, arm or
handler; `done` are the nodes up to it. -/
inductive OnSpine (ref : NodeRef) : List Node → List NodeRef → Prop where
  | here {stmt : Statement} {after : List Node} : OnSpine ref (.simple ref stmt :: after) [ref]
  | skip {n : Node} {after : List Node} {done : List NodeRef} (h : OnSpine ref after done) :
      OnSpine ref (n :: after) (nodeFlowRefs n ++ done)
  | inside {id : NodeRef} {label : Option String} {text : String} {body after : List Node}
      {done : List NodeRef} (h : OnSpine ref body done) :
      OnSpine ref (.compound id label text body :: after) (id :: done)

section Spine

variable {ref : NodeRef} {code : List Node} {done : List NodeRef}

theorem OnSpine.subset (h : OnSpine ref code done) : done ⊆ flowRefs code := by
  induction h with
  | here => exact List.cons_subset_cons _ (List.nil_subset _)
  | skip h ih => exact fun r hr => List.mem_append.mpr ((List.mem_append.mp hr).imp_right (@ih r))
  | inside h ih =>
    exact List.cons_subset_cons _ fun r hr => List.mem_append_left _ (ih hr)

theorem OnSpine.mem (h : OnSpine ref code done) : ref ∈ done := by
  induction h with
  | here => exact List.mem_singleton_self ref
  | skip h ih => exact List.mem_append_right _ ih
  | inside h ih => exact List.mem_cons_of_mem _ ih

theorem OnSpine.statement (h : OnSpine ref code done) :
    ∃ stmt, (ref, stmt) ∈ statementsOf code := by
  induction h with
  | @here stmt => exact ⟨stmt, List.mem_cons_self⟩
  | skip h ih => exact ih.imp fun _ => List.mem_append_right _
  | inside h ih => exact ih.imp fun _ => List.mem_append_left _

/-- Control comes to what is done from what was done before. -/
theorem OnSpine.source (h : OnSpine ref code done) (hdistinct : (flowRefs code).Nodup)
    {continuation : CfgRef} {stack : List ControlContext}
    (hcont : ∀ t ∈ done, continuation ≠ .ast t)
    (hstack : JumpsSatisfy (fun r => ∀ t ∈ done, r ≠ .ast t) stack) {e : CfgEdge}
    (he : e ∈ seqEdges code continuation stack) {t : NodeRef} (ht : t ∈ done)
    (htarget : e.target = .ast t) : ∃ s ∈ done, s ≠ ref ∧ e.source = .ast s := by
  -- An edge that was added for other nodes of the flow does not enter these.
  have elsewhere {done refs : List NodeRef} (hdisjoint : refs.Disjoint done) :
      ∀ r ∈ refs, ∀ t ∈ done, CfgRef.ast r ≠ .ast t := by
    rintro r hr t ht ⟨⟩
    exact hdisjoint hr ht
  induction h generalizing continuation stack t with
  | here =>
    obtain ⟨-, -, hdisjoint⟩ := List.nodup_append'.mp hdistinct
    have hafter := elsewhere hdisjoint.symm
    rcases List.mem_append.mp he with he | he
    · exact absurd htarget (seqEdges_target _ hafter hcont hstack e he t ht)
    · simp only [nodeEdges] at he
      split at he
      · cases he
      · rw [List.mem_singleton.mp he] at htarget
        have hnext := seqEntry_satisfies_flow (P := fun r => ∀ t ∈ [ref], r ≠ .ast t) hafter hcont
        exact absurd htarget (statementEdge_satisfies hnext hstack t ht)
  | @skip n after done h ih =>
    obtain ⟨-, hafter, hdisjoint⟩ := List.nodup_append'.mp hdistinct
    rcases List.mem_append.mp he with he | he
    · have hlater : t ∉ nodeFlowRefs n := fun htn => by
        have hstack' : JumpsSatisfy (fun r => ∀ t ∈ nodeFlowRefs n, r ≠ .ast t) stack :=
          hstack.imp fun r hr t ht => hr t (List.mem_append_left _ ht)
        exact seqEdges_target after (elsewhere hdisjoint.symm)
          (fun t ht => hcont t (List.mem_append_left _ ht)) hstack' e he t htn htarget
      have ht' := (List.mem_append.mp ht).resolve_left hlater
      obtain ⟨s, hs, hne, hsource⟩ := ih hafter (fun t ht => hcont t (List.mem_append_right _ ht))
        (hstack.imp fun r hr t ht => hr t (List.mem_append_right _ ht)) he ht' htarget
      exact ⟨s, List.mem_append_right _ hs, hne, hsource⟩
    · obtain ⟨s, hs, hsource⟩ := nodeEdges_source n e he
      refine ⟨s, List.mem_append_left _ hs, ?_, hsource⟩
      rintro rfl
      exact hdisjoint hs (h.subset h.mem)
  | @inside id label text body after done h ih =>
    obtain ⟨hn, -, hdisjoint⟩ := List.nodup_append'.mp hdistinct
    obtain ⟨hid, hbody⟩ := List.nodup_cons.mp hn
    have hdone : (id :: done).Disjoint (flowRefs after) := fun r hr hra =>
      hdisjoint (List.cons_subset_cons _ h.subset hr) hra
    have hafter := elsewhere hdone.symm
    rcases List.mem_append.mp he with he | he
    · exact absurd htarget (seqEdges_target after hafter hcont hstack e he t ht)
    have hnext := seqEntry_satisfies_flow (P := fun r => ∀ t ∈ id :: done, r ≠ .ast t) hafter hcont
    rcases List.mem_append.mp he with hedge | he
    · have hblock : JumpsSatisfy _ (blockContext label _ :: stack) := hstack.block hnext
      have hlater : t ≠ id := by
        rintro rfl
        refine seqEdges_target body (P := fun r => r ≠ .ast t) ?_ ?_ ?_ e hedge htarget
        · rintro r hr ⟨⟩
          exact hid hr
        · exact hnext t List.mem_cons_self
        · exact hblock.imp fun r hr => hr t List.mem_cons_self
      have ht' := (List.mem_cons.mp ht).resolve_left hlater
      obtain ⟨s, hs, hne, hsource⟩ := ih hbody (fun t ht => hnext t (List.mem_cons_of_mem _ ht))
        (hblock.imp fun r hr t ht => hr t (List.mem_cons_of_mem _ ht)) hedge ht' htarget
      exact ⟨s, List.mem_cons_of_mem _ hs, hne, hsource⟩
    · rw [List.mem_singleton.mp he]
      refine ⟨id, List.mem_cons_self, ?_, rfl⟩
      rintro rfl
      exact hid (h.subset h.mem)

end Spine

/-! ## The compounds of a procedure -/

variable {region : NodeRef}

section Activation

variable {ast : ProcedureAst}

/-- The compounds of a procedure, with their bodies. -/
def compoundsOf (ast : ProcedureAst) : List (NodeRef × List Node) :=
  (flowsOf ast).flatMap fun flow => flowCompounds flow.1

theorem procedure_refs_nodup (ast : ProcedureAst) :
    (flowRefs ast.body ++ (handlersOf ast.body).flatMap handlerFlowRefs).Nodup :=
  (refs_perm ast.body).nodup_iff.mp ast.distinct

theorem flows_nodup (ast : ProcedureAst) :
    ((flowsOf ast).flatMap fun flow => flowRefs flow.1).Nodup := by
  refine List.Nodup.sublist ?_ (procedure_refs_nodup ast)
  rw [flowsOf, List.flatMap_cons, List.flatMap_map]
  refine (List.Sublist.refl _).append ?_
  induction handlersOf ast.body with
  | nil => exact .refl _
  | cons h hs ih =>
    rw [List.flatMap_cons, List.flatMap_cons]
    exact (List.sublist_cons_self _ _).append ih

theorem flow_nodup {flow : List Node × CfgRef} (hflow : flow ∈ flowsOf ast) :
    (flowRefs flow.1).Nodup :=
  (List.nodup_flatMap.mp (flows_nodup ast)).1 flow hflow

theorem disjoint_of_flatMap {α β : Type} {l : List α} {f : α → List β} (h : (l.flatMap f).Nodup)
    {a b : α} (ha : a ∈ l) (hb : b ∈ l) (hne : a ≠ b) : (f a).Disjoint (f b) := by
  have hsymm : Std.Symm (Function.onFun List.Disjoint f) := ⟨fun _ _ h => h.symm⟩
  exact (List.nodup_flatMap.mp h).2.forall ha hb hne

theorem flows_disjoint {flow other : List Node × CfgRef} (hflow : flow ∈ flowsOf ast)
    (hother : other ∈ flowsOf ast) (hne : flow ≠ other) :
    (flowRefs flow.1).Disjoint (flowRefs other.1) :=
  disjoint_of_flatMap (flows_nodup ast) hflow hother hne

theorem handler_id_notMem {h : Handler} (hh : h ∈ handlersOf ast.body) {flow : List Node × CfgRef}
    (hflow : flow ∈ flowsOf ast) : h.id ∉ flowRefs flow.1 := by
  obtain ⟨-, hhandlers, hdisjoint⟩ := List.nodup_append'.mp (procedure_refs_nodup ast)
  rcases List.mem_cons.mp hflow with rfl | hflow
  · exact fun ht => hdisjoint ht (List.mem_flatMap.mpr ⟨h, hh, List.mem_cons_self⟩)
  obtain ⟨other, hother, rfl⟩ := List.mem_map.mp hflow
  intro ht
  by_cases heq : h = other
  · subst heq
    exact (List.nodup_cons.mp ((List.nodup_flatMap.mp hhandlers).1 h hh)).1 ht
  · exact disjoint_of_flatMap hhandlers hh hother heq List.mem_cons_self (List.mem_cons_of_mem _ ht)

theorem compounds_nodup (ast : ProcedureAst) : ((compoundsOf ast).map Prod.fst).Nodup := by
  refine List.Nodup.sublist ?_ (flows_nodup ast)
  rw [compoundsOf]
  induction flowsOf ast with
  | nil => exact .refl _
  | cons flow flows ih =>
    rw [List.flatMap_cons, List.map_append, List.flatMap_cons]
    exact (flowCompounds_sublist flow.1).append ih

theorem cfgEdges_enter {inner : List Node}
    (h : (region, inner) ∈ compoundsOf ast) {e : CfgEdge} (he : e ∈ cfgEdges ast) :
    Outside inner e.target ∨ EntersFrom region inner e := by
  obtain ⟨flow, hflow, h⟩ := List.mem_flatMap.mp h
  have hinner := (flowCompounds_body flow.1 h).subset
  have hcont : ∀ {other : List Node × CfgRef}, other ∈ flowsOf ast → Outside inner other.2 :=
    fun hother t _ => flow_continuation hother t
  rcases cfgEdges_flow he with ⟨other, hother, he⟩ | htarget | ⟨hd, hhd, htarget⟩
  · by_cases heq : other = flow
    · subst heq
      rcases he with he | he
      · exact seqEdges_enter other.1 h (flow_nodup hflow) (hcont hflow) outside_jumps e he
      · rw [he]
        exact .inl (seqEntry_outside h (flow_nodup hflow))
    · -- The other flows have no node of the body.
      have hrefs : ∀ r ∈ flowRefs other.1, Outside inner (.ast r) :=
        outside_of_disjoint fun r hr ht =>
          flows_disjoint hother hflow heq hr (hinner (List.mem_cons_of_mem _ ht))
      rcases he with he | he
      · exact .inl (seqEdges_target other.1 hrefs (hcont hother) outside_jumps e he)
      · rw [he]
        exact .inl (seqEntry_satisfies_flow hrefs (hcont hother))
  · exact .inl fun t _ => htarget t
  · rw [htarget]
    exact .inl (outside_of_notMem fun ht =>
      handler_id_notMem hhd hflow (hinner (List.mem_cons_of_mem _ ht)))

/-- A step of one activation of a compound: it does not enter the compound anew. -/
def ActivationStep (ast : ProcedureAst) (region : NodeRef) (a b : CfgRef) : Prop :=
  Edge ast a b ∧ b ≠ .ast region

/-- In one activation of the compound the node is passed and later the other. -/
def ExecutedAfter (ast : ProcedureAst) (region earlier later : NodeRef) : Prop :=
  Relation.TransGen (ActivationStep ast region) (.ast earlier) (.ast later)

/-- From a statement that is in no inner region of the compound, one activation of the compound does
not go back. -/
theorem not_executedAfter {region ref : NodeRef} {inner : List Node} {done : List NodeRef}
    (hregion : (region, inner) ∈ compoundsOf ast) (hspine : OnSpine ref inner done) {t : NodeRef}
    (ht : t ∈ done) : ¬ ExecutedAfter ast region ref t := by
  obtain ⟨flow, hflow, hmem⟩ := List.mem_flatMap.mp hregion
  obtain ⟨hid, hdistinct⟩ :=
    List.nodup_cons.mp ((flowCompounds_body flow.1 hmem).nodup (flow_nodup hflow))
  have back {x : CfgRef} {t : NodeRef} (ht : t ∈ done) (hx : x ≠ .ast region)
      (hedge : Edge ast x (.ast t)) : ∃ s ∈ done, s ≠ ref ∧ x = .ast s := by
    obtain ⟨e, he, rfl, htarget⟩ := hedge
    rcases cfgEdges_enter hregion he
      with houtside | hregion | ⟨continuation, stack, hcont, hstack, he⟩
    · exact absurd htarget (houtside t (hspine.subset ht))
    · exact absurd hregion hx
    · exact hspine.source hdistinct (fun t ht => hcont t (hspine.subset ht))
        (hstack.imp fun r hr t ht => hr t (hspine.subset ht)) he ht htarget
  -- Backwards along the path every node is before the statement; so the path does not start there.
  have path {x y : CfgRef} (hpath : Relation.TransGen (ActivationStep ast region) x y)
      (hx : x ≠ .ast region) : ∀ t ∈ done, y = .ast t → ∃ s ∈ done, s ≠ ref ∧ x = .ast s := by
    induction hpath with
    | single hstep =>
      rintro t ht rfl
      exact back ht hx hstep.1
    | tail hpath hstep ih =>
      rintro t ht rfl
      have hmid := (Relation.TransGen.tail'_iff.mp hpath).elim fun _ h => h.2.2
      obtain ⟨s, hs, -, hsource⟩ := back ht hmid hstep.1
      exact ih s hs hsource
  intro hpath
  have hstart : CfgRef.ast ref ≠ .ast region := by
    rintro ⟨⟩
    exact hid (hspine.subset hspine.mem)
  obtain ⟨s, -, hne, hsource⟩ := path hpath hstart t ht rfl
  exact hne (CfgRef.ast.inj hsource).symm

end Activation

/-! ## Atomic regions -/

/-- The statement is in no inner region of one of the compounds. -/
def AtomicSpot (compounds : List (NodeRef × List Node)) (region ref : NodeRef) : Prop :=
  ∃ inner done, (region, inner) ∈ compounds ∧ OnSpine ref inner done

/-- The compounds of a flow and of the bodies of handlers. -/
def withHandlers (compounds : List (NodeRef × List Node)) (handlers : List Handler) :
    List (NodeRef × List Node) := compounds ++ handlers.flatMap fun h => flowCompounds h.body

variable {compounds others : List (NodeRef × List Node)}

theorem AtomicSpot.mono {region ref : NodeRef}
    (h : AtomicSpot compounds region ref) (hsubset : compounds ⊆ others) :
    AtomicSpot others region ref := by
  obtain ⟨inner, done, hmem, hspine⟩ := h
  exact ⟨inner, done, hsubset hmem, hspine⟩

theorem withHandlers_left {hs hs' : List Handler} :
    withHandlers compounds hs ⊆ withHandlers (compounds ++ others) (hs ++ hs') := by
  intro x hx
  rw [withHandlers, List.flatMap_append]
  rcases List.mem_append.mp hx with hx | hx
  · exact List.mem_append_left _ (List.mem_append_left _ hx)
  · exact List.mem_append_right _ (List.mem_append_left _ hx)

theorem withHandlers_right {hs hs' : List Handler} :
    withHandlers others hs' ⊆ withHandlers (compounds ++ others) (hs ++ hs') := by
  intro x hx
  rw [withHandlers, List.flatMap_append]
  rcases List.mem_append.mp hx with hx | hx
  · exact List.mem_append_left _ (List.mem_append_right _ hx)
  · exact List.mem_append_right _ (List.mem_append_right _ hx)

variable {stmt : Statement} {ref : NodeRef}

mutual

/-- Where a statement of an `ATOMIC` block stands. -/
theorem nodeRegions_atomic (n : Node) (inherited : Option ControlRegion)
    (h : (ref, stmt) ∈ n.statements) :
    ∃ r, (ref, r) ∈ nodeRegions inherited n ∧ ∀ region, r = .atomicRegion region →
      (inherited = some (.atomicRegion region) ∧ ∀ after, ∃ done, OnSpine ref (n :: after) done) ∨
        AtomicSpot (withHandlers (nodeFlowCompounds n) n.handlers) region ref := by
  cases n with
  | simple id stmt =>
    cases List.mem_singleton.mp h
    refine ⟨_, List.mem_singleton_self _, fun region hr => .inl ⟨?_, fun after => ⟨_, .here⟩⟩⟩
    cases inherited with
    | none => cases hr
    | some own => exact congrArg some hr
  | compound id label text body =>
    obtain ⟨r, hmem, hatomic⟩ := seqRegions_atomic body
      (if isAtomic text then some (.atomicRegion id) else inherited) h
    refine ⟨r, List.mem_cons_of_mem _ hmem, fun region hr => ?_⟩
    rcases hatomic region hr with ⟨hown, done, hspine⟩ | hspot
    · split at hown
      · -- The compound itself is the atomic region.
        cases hown
        exact .inr ⟨body, done, List.mem_append_left _ List.mem_cons_self, hspine⟩
      · exact .inl ⟨hown, fun after => ⟨_, hspine.inside⟩⟩
    · refine .inr (hspot.mono fun x hx => ?_)
      rcases List.mem_append.mp hx with hx | hx
      · exact List.mem_append_left _ (List.mem_cons_of_mem _ hx)
      · exact List.mem_append_right _ hx
  | ifRegion id arms =>
    obtain ⟨r, hmem, hatomic⟩ := armRegions_atomic id 0 arms h
    exact ⟨r, List.mem_cons_of_mem _ hmem, fun region hr => .inr (hatomic region hr)⟩
  | loop id region body =>
    obtain ⟨r, hmem, hatomic⟩ := seqRegions_atomic body (some (.loopRegion id)) h
    refine ⟨r, List.mem_cons_of_mem _ hmem, fun region hr => ?_⟩
    exact .inr ((hatomic region hr).resolve_left nofun)
  | handler id region body =>
    obtain ⟨r, hmem, hatomic⟩ := seqRegions_atomic body (some (.handlerRegion id)) h
    refine ⟨r, List.mem_cons_of_mem _ hmem, fun region hr => ?_⟩
    exact .inr ((hatomic region hr).resolve_left nofun)

theorem seqRegions_atomic (code : List Node) (inherited : Option ControlRegion)
    (h : (ref, stmt) ∈ statementsOf code) :
    ∃ r, (ref, r) ∈ seqRegions inherited code ∧ ∀ region, r = .atomicRegion region →
      (inherited = some (.atomicRegion region) ∧ ∃ done, OnSpine ref code done) ∨
        AtomicSpot (withHandlers (flowCompounds code) (handlersOf code)) region ref := by
  cases code with
  | nil => cases h
  | cons n ns =>
    rcases List.mem_append.mp h with h | h
    · obtain ⟨r, hmem, hatomic⟩ := nodeRegions_atomic n inherited h
      refine ⟨r, List.mem_append_left _ hmem, fun region hr => ?_⟩
      exact (hatomic region hr).imp (fun hown => ⟨hown.1, hown.2 ns⟩)
        fun hspot => hspot.mono withHandlers_left
    · obtain ⟨r, hmem, hatomic⟩ := seqRegions_atomic ns inherited h
      refine ⟨r, List.mem_append_right _ hmem, fun region hr => ?_⟩
      exact (hatomic region hr).imp (fun hown => ⟨hown.1, hown.2.imp' _ fun _ h => h.skip⟩)
        fun hspot => hspot.mono withHandlers_right

theorem armRegions_atomic (id : NodeRef) (index : Nat) (arms : List Arm)
    (h : (ref, stmt) ∈ statementsOfArms arms) :
    ∃ r, (ref, r) ∈ armRegions id index arms ∧ ∀ region, r = .atomicRegion region →
      AtomicSpot (withHandlers (armFlowCompounds arms) (handlersOfArms arms)) region ref := by
  cases arms with
  | nil => cases h
  | cons a arms =>
    obtain ⟨header, body⟩ := a
    rcases List.mem_append.mp h with h | h
    · obtain ⟨r, hmem, hatomic⟩ :=
        seqRegions_atomic body (some (.ifArm id index header.armKind)) h
      refine ⟨r, List.mem_append_left _ hmem, fun region hr => ?_⟩
      exact ((hatomic region hr).resolve_left nofun).mono withHandlers_left
    · obtain ⟨r, hmem, hatomic⟩ := armRegions_atomic id (index + 1) arms h
      refine ⟨r, List.mem_append_right _ hmem, fun region hr => ?_⟩
      exact (hatomic region hr).mono withHandlers_right

end

mutual

theorem nodeRegions_sublist (n : Node) (inherited : Option ControlRegion) :
    ((nodeRegions inherited n).map Prod.fst).Sublist n.refs := by
  cases n with
  | simple => exact .refl _
  | compound id label text body => exact (seqRegions_sublist body _).cons_cons id
  | ifRegion id arms => exact (armRegions_sublist id 0 arms).cons_cons id
  | loop id region body => exact (seqRegions_sublist body _).cons_cons id
  | handler id region body => exact (seqRegions_sublist body _).cons_cons id

theorem seqRegions_sublist (code : List Node) (inherited : Option ControlRegion) :
    ((seqRegions inherited code).map Prod.fst).Sublist (refsOf code) := by
  cases code with
  | nil => exact .refl _
  | cons n ns =>
    rw [seqRegions, List.map_append, refsOf]
    exact (nodeRegions_sublist n inherited).append (seqRegions_sublist ns inherited)

theorem armRegions_sublist (id : NodeRef) (index : Nat) (arms : List Arm) :
    ((armRegions id index arms).map Prod.fst).Sublist (refsOfArms arms) := by
  cases arms with
  | nil => exact .refl _
  | cons a arms =>
    obtain ⟨header, body⟩ := a
    rw [armRegions, List.map_append, refsOfArms]
    exact ((seqRegions_sublist body _).append (armRegions_sublist id (index + 1) arms)).cons _

end

theorem atomicSpot_of_region {ref region : NodeRef} (hstmt : (ref, stmt) ∈ statementsOf ast.body)
    (hregion : controlRegion ast ref = .atomicRegion region) :
    AtomicSpot (compoundsOf ast) region ref := by
  obtain ⟨r, hmem, hatomic⟩ := seqRegions_atomic ast.body none hstmt
  have hlookup : (seqRegions none ast.body).lookup ref = some r :=
    lookup_of_mem_of_nodup ((seqRegions_sublist ast.body none).nodup ast.distinct) hmem
  rw [controlRegion, hlookup] at hregion
  have hspot := (hatomic region hregion).resolve_left nofun
  rwa [compoundsOf, flowsOf, List.flatMap_cons, List.flatMap_map]

/-! ## The order of the source -/

/-- The statements stand in the source in the order of the tree. -/
def SourceOrdered (code : List Node) : Prop :=
  (statementsOf code).Pairwise fun s t => s.2.startOffset < t.2.startOffset

instance (code : List Node) : Decidable (SourceOrdered code) :=
  inferInstanceAs (Decidable (List.Pairwise _ _))

/-- The sequence is a part of the one with these statements and nodes. -/
structure PartOf (inner : List Node) (statements : List (NodeRef × Statement))
    (refs : List NodeRef) : Prop where
  statements : (statementsOf inner).Sublist statements
  refs : (refsOf inner).Sublist refs

section Parts

variable {inner : List Node}

theorem PartOf.left {ss ss' : List (NodeRef × Statement)} {rs rs' : List NodeRef}
    (h : PartOf inner ss rs) : PartOf inner (ss ++ ss') (rs ++ rs') where
  statements := h.statements.trans (List.sublist_append_left _ _)
  refs := h.refs.trans (List.sublist_append_left _ _)

theorem PartOf.right {ss ss' : List (NodeRef × Statement)} {rs rs' : List NodeRef}
    (h : PartOf inner ss' rs') : PartOf inner (ss ++ ss') (rs ++ rs') where
  statements := h.statements.trans (List.sublist_append_right _ _)
  refs := h.refs.trans (List.sublist_append_right _ _)

theorem PartOf.cons {ss : List (NodeRef × Statement)} {rs : List NodeRef} (id : NodeRef)
    (h : PartOf inner ss rs) : PartOf inner ss (id :: rs) where
  statements := h.statements
  refs := h.refs.cons id

mutual

theorem nodeFlowCompounds_part (n : Node)
    (h : (region, inner) ∈ nodeFlowCompounds n) : PartOf inner n.statements n.refs := by
  cases n with
  | simple => cases h
  | compound id label text body =>
    rcases List.mem_cons.mp h with h | h
    · cases h
      exact ⟨.refl _, List.sublist_cons_self _ _⟩
    · exact (flowCompounds_part body h).cons id
  | ifRegion id arms => exact (armFlowCompounds_part arms h).cons id
  | loop id region body => exact (flowCompounds_part body h).cons id
  | handler => cases h

theorem flowCompounds_part (code : List Node)
    (h : (region, inner) ∈ flowCompounds code) : PartOf inner (statementsOf code)
    (refsOf code) := by
  cases code with
  | nil => cases h
  | cons n ns =>
    rcases List.mem_append.mp h with h | h
    · exact (nodeFlowCompounds_part n h).left
    · exact (flowCompounds_part ns h).right

theorem armFlowCompounds_part (arms : List Arm) (h : (region, inner) ∈ armFlowCompounds arms) :
    PartOf inner (statementsOfArms arms) (refsOfArms arms) := by
  cases arms with
  | nil => cases h
  | cons a arms =>
    obtain ⟨header, body⟩ := a
    rcases List.mem_append.mp h with h | h
    · exact (flowCompounds_part body h).left.cons header.armId
    · exact (armFlowCompounds_part arms h).right.cons header.armId

end

mutual

theorem Node.handlers_part (n : Node) {h : Handler} (hh : h ∈ n.handlers) :
    PartOf h.body n.statements n.refs := by
  cases n with
  | simple => cases hh
  | compound id label text body => exact (handlersOf_part body hh).cons id
  | ifRegion id arms => exact (handlersOfArms_part arms hh).cons id
  | loop id region body => exact (handlersOf_part body hh).cons id
  | handler id region body =>
    rcases List.mem_cons.mp hh with rfl | hh
    · exact ⟨.refl _, List.sublist_cons_self _ _⟩
    · exact (handlersOf_part body hh).cons id

theorem handlersOf_part (code : List Node) {h : Handler} (hh : h ∈ handlersOf code) :
    PartOf h.body (statementsOf code) (refsOf code) := by
  cases code with
  | nil => cases hh
  | cons n ns =>
    rcases List.mem_append.mp hh with hh | hh
    · exact (Node.handlers_part n hh).left
    · exact (handlersOf_part ns hh).right

theorem handlersOfArms_part (arms : List Arm) {h : Handler} (hh : h ∈ handlersOfArms arms) :
    PartOf h.body (statementsOfArms arms) (refsOfArms arms) := by
  cases arms with
  | nil => cases hh
  | cons a arms =>
    obtain ⟨header, body⟩ := a
    rcases List.mem_append.mp hh with hh | hh
    · exact (handlersOf_part body hh).left.cons header.armId
    · exact (handlersOfArms_part arms hh).right.cons header.armId

end

theorem compoundsOf_part (h : (region, inner) ∈ compoundsOf ast) :
    PartOf inner (statementsOf ast.body) (refsOf ast.body) := by
  obtain ⟨flow, hflow, h⟩ := List.mem_flatMap.mp h
  have hpart := flowCompounds_part flow.1 h
  rcases List.mem_cons.mp hflow with rfl | hflow
  · exact hpart
  · obtain ⟨hd, hhd, rfl⟩ := List.mem_map.mp hflow
    have hbody := handlersOf_part ast.body hhd
    exact ⟨hpart.statements.trans hbody.statements, hpart.refs.trans hbody.refs⟩

theorem statements_refs {code : List Node}
    (h : (ref, stmt) ∈ statementsOf code) : ref ∈ refsOf code :=
  (statementsOf_sublist code).subset (List.mem_map.mpr ⟨_, h, rfl⟩)

end Parts

/-- What comes later stands later in the text. -/
theorem OnSpine.offset_lt {code : List Node} {done : List NodeRef}
    (h : OnSpine ref code done) (hdistinct : (refsOf code).Nodup) (hordered : SourceOrdered code)
    (hstmt : (ref, stmt) ∈ statementsOf code) {other : NodeRef} {next : Statement}
    (hnext : (other, next) ∈ statementsOf code) (hflow : other ∈ flowRefs code)
    (hafter : other ∉ done) :
    stmt.startOffset < next.startOffset := by
  -- A statement of the rest of a sequence is listed among those of the rest.
  have later {n : Node} {after : List Node} {r : NodeRef} {s : Statement}
      (hdistinct : (refsOf (n :: after)).Nodup) (hs : (r, s) ∈ statementsOf (n :: after))
      (hr : r ∈ flowRefs after) : (r, s) ∈ statementsOf after := by
    obtain ⟨-, -, hdisjoint⟩ := List.nodup_append'.mp hdistinct
    refine (List.mem_append.mp hs).resolve_left fun hs => ?_
    exact hdisjoint ((Node.statements_sublist n).subset (List.mem_map.mpr ⟨_, hs, rfl⟩))
      (flowRefs_subset after hr)
  have earlier {n : Node} {after : List Node} {r : NodeRef} {s : Statement}
      (hdistinct : (refsOf (n :: after)).Nodup) (hs : (r, s) ∈ statementsOf (n :: after))
      (hr : r ∈ nodeFlowRefs n) : (r, s) ∈ n.statements := by
    obtain ⟨-, -, hdisjoint⟩ := List.nodup_append'.mp hdistinct
    refine (List.mem_append.mp hs).resolve_right fun hs => ?_
    exact hdisjoint ((nodeRefs_perm n).mem_iff.mpr (List.mem_append_left _ hr)) (statements_refs hs)
  induction h with
  | here =>
    have hrest := (List.mem_append.mp hflow).resolve_left hafter
    exact (List.pairwise_append.mp hordered).2.2 _
      (earlier hdistinct hstmt (List.mem_singleton_self _))
      _ (later hdistinct hnext hrest)
  | @skip n after done h ih =>
    obtain ⟨-, hrest, -⟩ := List.nodup_append'.mp hdistinct
    rw [List.mem_append, not_or] at hafter
    have hflow := (List.mem_append.mp hflow).resolve_left hafter.1
    exact ih hrest (List.pairwise_append.mp hordered).2.1
      (later hdistinct hstmt (h.subset h.mem)) (later hdistinct hnext hflow) hflow hafter.2
  | @inside id label text body after done h ih =>
    obtain ⟨hn, -, -⟩ := List.nodup_append'.mp hdistinct
    obtain ⟨hbody, hrest, hcross⟩ := List.pairwise_append.mp hordered
    rw [List.mem_cons, not_or] at hafter
    have hstmt := earlier hdistinct hstmt (List.mem_cons_of_mem _ (h.subset h.mem))
    rcases List.mem_append.mp hflow with hflow | hflow
    · have hnext := earlier hdistinct hnext hflow
      exact ih (List.nodup_cons.mp hn).2 hbody hstmt hnext
        ((List.mem_cons.mp hflow).resolve_left hafter.1) hafter.2
    · exact hcross _ hstmt _ (later hdistinct hnext hflow)

theorem atomic_order (hordered : SourceOrdered ast.body) {a b region : NodeRef}
    {s t : Statement} (ha : (a, s) ∈ statementsOf ast.body) (hb : (b, t) ∈ statementsOf ast.body)
    (hregion : controlRegion ast a = .atomicRegion region)
    (hregion' : controlRegion ast b = .atomicRegion region) (hle : s.startOffset ≤ t.startOffset) :
    ∃ inner, (region, inner) ∈ compoundsOf ast ∧ a ∈ flowRefs inner ∧ b ∈ flowRefs inner ∧
      ¬ ExecutedAfter ast region b a := by
  obtain ⟨inner, doneA, hmem, hspineA⟩ := atomicSpot_of_region ha hregion
  obtain ⟨inner', done, hmem', hspine⟩ := atomicSpot_of_region hb hregion'
  obtain rfl : inner = inner' := Option.some.inj <|
    (lookup_of_mem_of_nodup (compounds_nodup ast) hmem).symm.trans
      (lookup_of_mem_of_nodup (compounds_nodup ast) hmem')
  have hpart := compoundsOf_part hmem
  have haflow := hspineA.subset hspineA.mem
  have hbflow := hspine.subset hspine.mem
  refine ⟨inner, hmem, haflow, hbflow, not_executedAfter hmem hspine ?_⟩
  -- A statement of the body is listed with the body.
  have inBody {r : NodeRef} {u : Statement} (hu : (r, u) ∈ statementsOf ast.body)
      {done : List NodeRef} (hspine : OnSpine r inner done) : (r, u) ∈ statementsOf inner := by
    obtain ⟨u', hu'⟩ := hspine.statement
    rwa [statement_unique hu (hpart.statements.subset hu')]
  by_contra hafter
  have hlt := hspine.offset_lt (hpart.refs.nodup ast.distinct) (hordered.sublist hpart.statements)
    (inBody hb hspine) (inBody ha hspineA) haflow hafter
  omega

end AtlasDb.Semantics
