import AtlasDb.Analysis.Cfg
import Mathlib.Data.List.Basic

/-!
# The sequences of a procedure

The graph builder goes through the body of the procedure and through the body of every handler, each
from its end. Every node of the tree that is not a handler belongs to one of these flows
(`refs_perm`), and an edge that is added for a flow leaves a node of it (`seqEdges_source`) and
enters a node of it or a place where the flow ends or is left (`seqEdges_target`).
-/

namespace AtlasDb.Analysis

open Core Parsing

/-! ## Nodes -/

mutual

/-- The nodes of a subtree without the handlers in it. -/
def nodeFlowRefs : Node → List NodeRef
  | .simple id _ => [id]
  | .compound id _ _ body => id :: flowRefs body
  | .ifRegion id arms => id :: armFlowRefs arms
  | .loop id _ body => id :: flowRefs body
  | .handler _ _ _ => []

def flowRefs : List Node → List NodeRef
  | [] => []
  | n :: ns => nodeFlowRefs n ++ flowRefs ns

def armFlowRefs : List Arm → List NodeRef
  | [] => []
  | .mk header body :: arms => header.armId :: (flowRefs body ++ armFlowRefs arms)

end

/-- A handler and the nodes of its body. -/
def handlerFlowRefs (h : Handler) : List NodeRef := h.id :: flowRefs h.body

mutual

theorem nodeRefs_perm (n : Node) :
    n.refs.Perm (nodeFlowRefs n ++ n.handlers.flatMap handlerFlowRefs) := by
  cases n with
  | simple id stmt => exact .refl _
  | compound id label text body => exact (refs_perm body).cons id
  | ifRegion id arms => exact (armRefs_perm arms).cons id
  | loop id region body => exact (refs_perm body).cons id
  | handler id region body => exact (refs_perm body).cons id

theorem refs_perm (code : List Node) :
    (refsOf code).Perm (flowRefs code ++ (handlersOf code).flatMap handlerFlowRefs) := by
  cases code with
  | nil => exact .refl _
  | cons n ns =>
    rw [refsOf, flowRefs, handlersOf, List.flatMap_append, List.append_assoc]
    refine ((nodeRefs_perm n).append (refs_perm ns)).trans ?_
    rw [List.append_assoc]
    exact (List.perm_append_comm_assoc _ _ _).append_left _

theorem armRefs_perm (arms : List Arm) :
    (refsOfArms arms).Perm (armFlowRefs arms ++ (handlersOfArms arms).flatMap handlerFlowRefs) := by
  cases arms with
  | nil => exact .refl _
  | cons a arms =>
    obtain ⟨header, body⟩ := a
    rw [refsOfArms, armFlowRefs, handlersOfArms, List.flatMap_append]
    refine List.Perm.cons _ (((refs_perm body).append (armRefs_perm arms)).trans ?_)
    show List.Perm _ ((flowRefs body ++ armFlowRefs arms) ++ _)
    rw [List.append_assoc, List.append_assoc]
    exact (List.perm_append_comm_assoc _ _ _).append_left _

end

theorem flowRefs_subset (code : List Node) : flowRefs code ⊆ refsOf code := fun _ h =>
  (refs_perm code).mem_iff.mpr (List.mem_append_left _ h)

theorem mem_refs_of_handler {code : List Node} {h : Handler} (hh : h ∈ handlersOf code)
    {ref : NodeRef} (href : ref ∈ handlerFlowRefs h) : ref ∈ refsOf code :=
  (refs_perm code).mem_iff.mpr (List.mem_append_right _ (List.mem_flatMap.mpr ⟨h, hh, href⟩))

theorem id_mem_nodeFlowRefs {n : Node} (h : n.isDeclaration = false) : n.id ∈ nodeFlowRefs n := by
  cases n with
  | simple => exact List.mem_singleton_self _
  | compound => exact List.mem_cons_self
  | ifRegion => exact List.mem_cons_self
  | loop => exact List.mem_cons_self
  | handler => cases h

/-! ## Where the edges lead -/

section Targets

variable {P : CfgRef → Prop}

/-- What a jump or a `RETURN` or `SIGNAL` may go to satisfies `P`. -/
structure JumpsSatisfy (P : CfgRef → Prop) (stack : List ControlContext) : Prop where
  normal : P .normalExit
  exceptional : P .exceptionalExit
  contexts : ∀ c ∈ stack, P c.exitRef ∧ ∀ header ∈ c.loopHeader, P header

variable {stack : List ControlContext}

theorem JumpsSatisfy.imp {Q : CfgRef → Prop}
    (hstack : JumpsSatisfy P stack) (h : ∀ r, P r → Q r) : JumpsSatisfy Q stack where
  normal := h _ hstack.normal
  exceptional := h _ hstack.exceptional
  contexts := fun c hc => (hstack.contexts c hc).imp (h _) fun hheader r hr => h _ (hheader r hr)

theorem JumpsSatisfy.block {label : Option String} {exit : CfgRef}
    (hstack : JumpsSatisfy P stack) (hexit : P exit) :
    JumpsSatisfy P (blockContext label exit :: stack) where
  normal := hstack.normal
  exceptional := hstack.exceptional
  contexts := List.forall_mem_cons.mpr ⟨⟨hexit, nofun⟩, hstack.contexts⟩

theorem JumpsSatisfy.loop {id : NodeRef} {region : LoopRegion}
    {exit : CfgRef} (hstack : JumpsSatisfy P stack) (hid : P (.ast id)) (hexit : P exit) :
    JumpsSatisfy P (loopContext id region exit :: stack) where
  normal := hstack.normal
  exceptional := hstack.exceptional
  contexts := by
    refine List.forall_mem_cons.mpr ⟨⟨hexit, ?_⟩, hstack.contexts⟩
    rintro _ ⟨⟩
    exact hid

theorem resolveControlTarget_satisfies {label : Option String} {iterate : Bool}
    (hstack : JumpsSatisfy P stack) :
    P (resolveControlTarget label iterate stack) := by
  unfold resolveControlTarget
  split
  · next context hfind =>
      obtain ⟨hexit, hheader⟩ := hstack.contexts context (List.mem_of_find?_eq_some hfind)
      split
      · cases hloop : context.loopHeader with
        | none => exact hexit
        | some header => exact hheader header hloop
      · exact hexit
  · split
    · exact hstack.normal
    · exact hstack.exceptional

theorem statementEdge_satisfies {id : NodeRef} {stmt : Statement} {continuation : CfgRef}
    (hcont : P continuation) (hstack : JumpsSatisfy P stack) :
    P (statementEdge id stmt continuation stack).target := by
  unfold statementEdge
  split
  · exact hstack.normal
  · exact hstack.exceptional
  · exact hstack.exceptional
  · exact resolveControlTarget_satisfies hstack
  · exact resolveControlTarget_satisfies hstack
  · exact hcont

theorem seqEntry_satisfies {code : List Node} {continuation : CfgRef}
    (hrefs : ∀ n ∈ code, n.isDeclaration = false → P (.ast n.id)) (hcont : P continuation) :
    P (seqEntry code continuation) := by
  induction code with
  | nil => exact hcont
  | cons n ns ih =>
    rw [seqEntry, nodeEntry]
    split
    · exact ih fun m hm => hrefs m (List.mem_cons_of_mem _ hm)
    · next hdecl => exact hrefs n List.mem_cons_self (by simpa using hdecl)

theorem mem_flowRefs_of_mem {code : List Node} {n : Node} (hn : n ∈ code) {ref : NodeRef}
    (href : ref ∈ nodeFlowRefs n) : ref ∈ flowRefs code := by
  induction code with
  | nil => cases hn
  | cons m ns ih =>
    rcases List.mem_cons.mp hn with rfl | hn
    · exact List.mem_append_left _ href
    · exact List.mem_append_right _ (ih hn)

theorem seqEntry_satisfies_flow {code : List Node} {continuation : CfgRef}
    (hrefs : ∀ r ∈ flowRefs code, P (.ast r)) (hcont : P continuation) :
    P (seqEntry code continuation) :=
  seqEntry_satisfies
    (fun _ hn hdecl => hrefs _ (mem_flowRefs_of_mem hn (id_mem_nodeFlowRefs hdecl))) hcont

mutual

/-- What holds of the nodes of a flow, of where it ends and of where it is left holds of the targets
of its edges. -/
theorem nodeEdges_target (n : Node) {continuation : CfgRef} {stack : List ControlContext}
    (hrefs : ∀ r ∈ nodeFlowRefs n, P (.ast r)) (hcont : P continuation)
    (hstack : JumpsSatisfy P stack) : ∀ e ∈ nodeEdges n continuation stack, P e.target := by
  intro e he
  cases n with
  | simple id stmt =>
    simp only [nodeEdges] at he
    split at he
    · cases he
    · rw [List.mem_singleton.mp he]
      exact statementEdge_satisfies hcont hstack
  | compound id label text body =>
    obtain ⟨-, hbody⟩ := List.forall_mem_cons.mp hrefs
    rcases List.mem_append.mp he with he | he
    · exact seqEdges_target body hbody hcont (hstack.block hcont) e he
    · rw [List.mem_singleton.mp he]
      exact seqEntry_satisfies_flow hbody hcont
  | ifRegion id arms =>
    obtain ⟨-, harms⟩ := List.forall_mem_cons.mp hrefs
    exact armEdges_target id 0 false false arms harms hcont hstack e he
  | loop id region body =>
    obtain ⟨hid, hbody⟩ := List.forall_mem_cons.mp hrefs
    rcases List.mem_append.mp he with he | he
    · exact seqEdges_target body hbody hid (hstack.loop hid hcont) e he
    rcases List.mem_cons.mp he with rfl | he
    · exact seqEntry_satisfies_flow hbody hid
    split at he
    · cases he
    · rw [List.mem_singleton.mp he]
      exact hcont
  | handler => cases he

theorem seqEdges_target (code : List Node) {continuation : CfgRef} {stack : List ControlContext}
    (hrefs : ∀ r ∈ flowRefs code, P (.ast r)) (hcont : P continuation)
    (hstack : JumpsSatisfy P stack) : ∀ e ∈ seqEdges code continuation stack, P e.target := by
  intro e he
  cases code with
  | nil => cases he
  | cons n ns =>
    obtain ⟨hn, hns⟩ := List.forall_mem_append.mp hrefs
    rcases List.mem_append.mp he with he | he
    · exact seqEdges_target ns hns hcont hstack e he
    · exact nodeEdges_target n hn (seqEntry_satisfies_flow hns hcont) hstack e he

theorem armEdges_target (id : NodeRef) (index : Nat) (hasElse always : Bool) (arms : List Arm)
    {continuation : CfgRef} {stack : List ControlContext}
    (hrefs : ∀ r ∈ armFlowRefs arms, P (.ast r)) (hcont : P continuation)
    (hstack : JumpsSatisfy P stack) :
    ∀ e ∈ armEdges id index hasElse always arms continuation stack, P e.target := by
  intro e he
  cases arms with
  | nil =>
    simp only [armEdges] at he
    split at he
    · rw [List.mem_singleton.mp he]
      exact hcont
    · cases he
  | cons a arms =>
    obtain ⟨header, body⟩ := a
    obtain ⟨hheader, hrefs⟩ := List.forall_mem_cons.mp hrefs
    obtain ⟨hbody, harms⟩ := List.forall_mem_append.mp hrefs
    rcases List.mem_append.mp he with he | he
    · exact seqEdges_target body hbody hcont hstack e he
    rcases List.mem_cons.mp he with rfl | he
    · exact seqEntry_satisfies_flow hbody hcont
    rcases List.mem_append.mp he with he | he
    · split at he
      · cases he
      · rw [List.mem_singleton.mp he]
        exact hheader
    · exact armEdges_target id _ _ _ arms harms hcont hstack e he

end

end Targets

/-! ## Where the edges start -/

mutual

theorem nodeEdges_source (n : Node) {continuation : CfgRef} {stack : List ControlContext} :
    ∀ e ∈ nodeEdges n continuation stack, ∃ r ∈ nodeFlowRefs n, e.source = .ast r := by
  intro e he
  cases n with
  | simple id stmt =>
    simp only [nodeEdges] at he
    split at he
    · cases he
    · rw [List.mem_singleton.mp he]
      exact ⟨id, List.mem_singleton_self id, statementEdge_source ..⟩
  | compound id label text body =>
    rcases List.mem_append.mp he with he | he
    · obtain ⟨r, hr, hsource⟩ := seqEdges_source body e he
      exact ⟨r, List.mem_cons_of_mem _ hr, hsource⟩
    · rw [List.mem_singleton.mp he]
      exact ⟨id, List.mem_cons_self, rfl⟩
  | ifRegion id arms => exact armEdges_source id 0 false false arms e he
  | loop id region body =>
    rcases List.mem_append.mp he with he | he
    · obtain ⟨r, hr, hsource⟩ := seqEdges_source body e he
      exact ⟨r, List.mem_cons_of_mem _ hr, hsource⟩
    rcases List.mem_cons.mp he with rfl | he
    · exact ⟨id, List.mem_cons_self, rfl⟩
    split at he
    · cases he
    · rw [List.mem_singleton.mp he]
      exact ⟨id, List.mem_cons_self, rfl⟩
  | handler => cases he

theorem seqEdges_source (code : List Node) {continuation : CfgRef} {stack : List ControlContext} :
    ∀ e ∈ seqEdges code continuation stack, ∃ r ∈ flowRefs code, e.source = .ast r := by
  intro e he
  cases code with
  | nil => cases he
  | cons n ns =>
    rcases List.mem_append.mp he with he | he
    · obtain ⟨r, hr, hsource⟩ := seqEdges_source ns e he
      exact ⟨r, List.mem_append_right _ hr, hsource⟩
    · obtain ⟨r, hr, hsource⟩ := nodeEdges_source n e he
      exact ⟨r, List.mem_append_left _ hr, hsource⟩

theorem armEdges_source (id : NodeRef) (index : Nat) (hasElse always : Bool) (arms : List Arm)
    {continuation : CfgRef} {stack : List ControlContext} :
    ∀ e ∈ armEdges id index hasElse always arms continuation stack,
      ∃ r ∈ id :: armFlowRefs arms, e.source = .ast r := by
  intro e he
  cases arms with
  | nil =>
    simp only [armEdges] at he
    split at he
    · rw [List.mem_singleton.mp he]
      exact ⟨id, List.mem_cons_self, rfl⟩
    · cases he
  | cons a arms =>
    obtain ⟨header, body⟩ := a
    rcases List.mem_append.mp he with he | he
    · obtain ⟨r, hr, hsource⟩ := seqEdges_source body e he
      exact ⟨r, by simp [armFlowRefs, hr], hsource⟩
    rcases List.mem_cons.mp he with rfl | he
    · exact ⟨header.armId, by simp [armFlowRefs], rfl⟩
    rcases List.mem_append.mp he with he | he
    · split at he
      · cases he
      · rw [List.mem_singleton.mp he]
        exact ⟨id, List.mem_cons_self, rfl⟩
    · obtain ⟨r, hr, hsource⟩ := armEdges_source id _ _ _ arms e he
      refine ⟨r, ?_, hsource⟩
      rcases List.mem_cons.mp hr with rfl | hr
      · exact List.mem_cons_self
      · simp [armFlowRefs, hr]

end

end AtlasDb.Analysis
