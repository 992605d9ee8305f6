import AtlasDb.Dialects.FlowEdges

/-!
# The refined flow is well formed

`refineControlFlow` for the nodes and edges of a parser. The nodes come back in order with their
call targets behind them, the edges are distinct and numbered, transfers keep no edge of the parser,
and a node that control cannot reach is marked. An UNKNOWN modality the parser gave stays.
-/

namespace AtlasDb.Dialects

open Core Lib

/-! ## Distinct edges -/

variable {edges : List SemanticEdge}

section Edges

variable {nodes : List SemanticNode} {exitId : List Char}

/-- The edges after all requests. -/
theorem mem_keys_foldl_addEdge {requests : List EdgeKey} {key : EdgeKey} :
    key ∈ (requests.foldl addEdge edges).map SemanticEdge.key ↔
      key ∈ edges.map SemanticEdge.key ∨
        (key ∈ requests ∧ (key.sourceRef ≠ key.targetRef ∨ key.kind = .loopBack)) := by
  induction requests generalizing edges with
  | nil => simp
  | cons request requests ih =>
    rw [List.foldl_cons, ih, addEdge]
    split
    · next hself =>
        -- a request that is not met cannot be the key
        have hother : ¬(key = request ∧
          (key.sourceRef ≠ key.targetRef ∨ key.kind = .loopBack)) := by
          rintro ⟨rfl, hne | hback⟩
          · exact hne hself.1
          · exact hself.2 hback
        rw [List.mem_cons]
        tauto
    · next hother =>
        have hmeets : request.sourceRef ≠ request.targetRef ∨ request.kind = .loopBack := by tauto
        split
        · next hany =>
            obtain ⟨edge, hedge, hkey⟩ := List.any_eq_true.mp hany
            have hmem : request ∈ edges.map SemanticEdge.key :=
              List.mem_map.mpr ⟨edge, hedge, of_decide_eq_true hkey⟩
            rw [List.mem_cons]
            constructor
            · tauto
            · rintro (h | ⟨rfl | h, hkind⟩)
              · exact .inl h
              · exact .inl hmem
              · exact .inr ⟨h, hkind⟩
        · rw [List.map_append, List.mem_append, List.map_singleton, List.mem_singleton,
            List.mem_cons]
          constructor
          · rintro ((h | h) | h)
            · exact .inl h
            · subst h
              exact .inr ⟨.inl rfl, hmeets⟩
            · exact .inr ⟨.inr h.1, h.2⟩
          · rintro (h | ⟨h | h, hkind⟩)
            · exact .inl (.inl h)
            · subst h
              exact .inl (.inr rfl)
            · exact .inr ⟨h, hkind⟩

theorem mem_keys_distinctEdges {seen : List EdgeKey} {key : EdgeKey} :
    key ∈ (distinctEdges seen edges).map SemanticEdge.key ↔
      key ∈ edges.map SemanticEdge.key ∧ key ∉ seen := by
  induction edges generalizing seen with
  | nil => simp [distinctEdges]
  | cons edge rest ih =>
    rw [distinctEdges]
    split
    · next hseen =>
        rw [ih, List.map_cons, List.mem_cons]
        constructor
        · exact fun ⟨h, hnew⟩ => ⟨.inr h, hnew⟩
        · rintro ⟨rfl | h, hnew⟩
          · exact absurd hseen hnew
          · exact ⟨h, hnew⟩
    · next hseen =>
        rw [List.map_cons, List.mem_cons, ih, List.map_cons, List.mem_cons, List.mem_cons]
        constructor
        · rintro (rfl | ⟨h, hnew⟩)
          · exact ⟨.inl rfl, hseen⟩
          · exact ⟨.inr h, fun hmem => hnew (.inr hmem)⟩
        · rintro ⟨rfl | h, hnew⟩
          · exact .inl rfl
          · by_cases hkey : key = edge.key
            · exact .inl hkey
            · exact .inr ⟨h, fun hmem => hmem.elim hkey hnew⟩

theorem nodup_keys_distinctEdges (seen : List EdgeKey) (edges : List SemanticEdge) :
    ((distinctEdges seen edges).map SemanticEdge.key).Nodup := by
  induction edges generalizing seen with
  | nil => exact List.nodup_nil
  | cons edge rest ih =>
    rw [distinctEdges]
    split
    · exact ih seen
    · rw [List.map_cons, List.nodup_cons]
      refine ⟨fun hmem => ?_, ih _⟩
      exact (mem_keys_distinctEdges.mp hmem).2 List.mem_cons_self

theorem keys_uniqueEdges (edges : List SemanticEdge) :
    (uniqueEdges edges).map SemanticEdge.key = (distinctEdges [] edges).map SemanticEdge.key := by
  apply List.ext_getElem
  · simp [uniqueEdges]
  · intro i h h'
    simp [uniqueEdges, SemanticEdge.key]

theorem ids_uniqueEdges (edges : List SemanticEdge) :
    (uniqueEdges edges).map SemanticEdge.edgeId =
    (List.range (uniqueEdges edges).length).map edgeId := by
  apply List.ext_getElem
  · simp
  · intro i h h'
    simp [uniqueEdges]

theorem mem_refined_keys {key : EdgeKey} :
    key ∈ (uniqueEdges (controlEdges nodes exitId edges)).map SemanticEdge.key ↔
      key ∈ (edges.filter (keepsEdge nodes)).map SemanticEdge.key ∨
        (key ∈ requestedEdges nodes exitId ∧
          (key.sourceRef ≠ key.targetRef ∨ key.kind = .loopBack)) := by
  rw [keys_uniqueEdges, mem_keys_distinctEdges, controlEdges, mem_keys_foldl_addEdge]
  exact and_iff_left List.not_mem_nil

theorem keepsEdge_source {edge : SemanticEdge} (h : keepsEdge nodes edge = true) :
    ∃ source, byId nodes edge.sourceRef = some source ∧ source.kind ∉ terminalKinds ∧
      source.kind ≠ .loopControl := by
  rw [keepsEdge] at h
  cases hsource : byId nodes edge.sourceRef with
  | none =>
    rw [hsource] at h
    exact nomatch h
  | some source =>
    rw [hsource] at h
    dsimp only at h
    refine ⟨source, rfl, fun hterminal => ?_, fun hcontrol => ?_⟩
    · rw [if_pos hterminal] at h
      exact nomatch h
    · rw [hcontrol, if_neg (by decide), if_pos rfl] at h
      exact nomatch h

/-! ## Call targets -/

/-- Each routine that is called has one target node, and there is no other. -/
structure TargetsOf (nodes targets : List SemanticNode) : Prop where
  kinds : ∀ target ∈ targets, target.kind = .callTarget
  routine : ∀ target ∈ targets, ∃ name, target.targetName = some name
  named : ∀ name, some name ∈ targets.map SemanticNode.targetName ↔
    ∃ node ∈ nodes, calledRoutine node = some name
  distinct : (targets.map SemanticNode.targetName).Nodup

/-- Registering a node keeps the targets. -/
theorem TargetsOf.register {targets : List SemanticNode} (h : TargetsOf nodes targets)
    (node : SemanticNode) : TargetsOf (nodes ++ [node]) (registerTarget targets node) := by
  have hnamed (name : List Char) : (∃ n ∈ nodes ++ [node], calledRoutine n = some name) ↔
      (∃ n ∈ nodes, calledRoutine n = some name) ∨ calledRoutine node = some name := by
    simp only [List.mem_append, List.mem_singleton, or_and_right, exists_or, exists_eq_left]
  rw [registerTarget]
  split
  · next hnone =>
      refine ⟨h.kinds, h.routine, fun name => ?_, h.distinct⟩
      rw [hnamed, h.named, hnone]
      simp
  · next target hcalled =>
      split
      · next hany =>
          obtain ⟨known, hknown, hname⟩ := List.any_eq_true.mp hany
          refine ⟨h.kinds, h.routine, fun name => ?_, h.distinct⟩
          rw [hnamed, hcalled, ← h.named]
          refine ⟨.inl, ?_⟩
          rintro (hmem | heq)
          · exact hmem
          · cases heq
            exact List.mem_map.mpr ⟨known, hknown, of_decide_eq_true hname⟩
      · next hnew =>
          constructor
          · intro t ht
            rcases List.mem_append.mp ht with ht | ht
            · exact h.kinds t ht
            · rw [List.mem_singleton.mp ht]
          · intro t ht
            rcases List.mem_append.mp ht with ht | ht
            · exact h.routine t ht
            · rw [List.mem_singleton.mp ht]
              exact ⟨target, rfl⟩
          · intro name
            rw [hnamed, hcalled, ← h.named, List.map_append, List.mem_append, List.map_singleton,
              List.mem_singleton]
            exact or_congr_right eq_comm
          · rw [List.map_append, List.map_singleton, List.nodup_append]
            refine ⟨h.distinct, List.nodup_singleton _, ?_⟩
            intro name hname _ hother heq
            rw [List.mem_singleton] at hother
            subst heq hother
            obtain ⟨known, hknown, hname⟩ := List.mem_map.mp hname
            exact hnew (List.any_eq_true.mpr ⟨known, hknown, decide_eq_true hname⟩)

theorem targetsOf_callTargets (nodes : List SemanticNode) :
    TargetsOf nodes (callTargets nodes) := by
  have hrun (first rest targets : List SemanticNode) (h : TargetsOf first targets) :
      TargetsOf (first ++ rest) (rest.foldl registerTarget targets) := by
    induction rest generalizing first targets with
    | nil => simpa using h
    | cons node rest ih =>
      have hnext := ih (first ++ [node]) (registerTarget targets node) (h.register node)
      rwa [List.append_assoc, List.singleton_append] at hnext
  exact hrun [] nodes [] ⟨fun _ h => (nomatch h), fun _ h => (nomatch h), by simp, List.nodup_nil⟩

end Edges

/-! ## Ancestors -/

/-- One node names another as its parent. -/
def ParentOf (nodes : List SemanticNode) (ref parent : List Char) : Prop :=
  ∃ node ∈ nodes, node.nodeId = ref ∧ node.parentRef = some parent ∧ parent ≠ []

section Ancestors

variable {nodes : List SemanticNode}

theorem parentOf_eq_some_iff (hdistinct : (nodes.map SemanticNode.nodeId).Nodup)
    {ref parent : List Char} :
    parentOf nodes ref = some parent ↔ ParentOf nodes ref parent := by
  rw [parentOf, Option.bind_eq_some_iff]
  constructor
  · rintro ⟨node, hfind, hgiven⟩
    obtain ⟨hmem, hid⟩ := byId_spec hfind
    obtain ⟨hparent, hne⟩ := Option.filter_eq_some_iff.mp hgiven
    exact ⟨node, hmem, hid, hparent, by simpa using hne⟩
  · rintro ⟨node, hmem, rfl, hparent, hne⟩
    refine ⟨node, byId_of_mem hdistinct hmem, Option.filter_eq_some_iff.mpr ⟨hparent, ?_⟩⟩
    simpa using hne

theorem isDescendant_iff (hdistinct : (nodes.map SemanticNode.nodeId).Nodup)
    {ref ancestor : List Char} :
    isDescendant nodes ref ancestor = true ↔ Relation.TransGen (ParentOf nodes) ref ancestor := by
  have hancestry : ancestry nodes ref =
      trail (parentOf nodes) (nodes.length + 1) (parentOf nodes ref) [] := by
    rw [ancestry, parentOf]
    cases byId nodes ref with
    | none => rfl
    | some node => rfl
  have hdomain (a b : List Char) (h : parentOf nodes a = some b) :
      a ∈ (nodes.map SemanticNode.nodeId).toFinset := by
    obtain ⟨node, hmem, rfl, -⟩ := (parentOf_eq_some_iff hdistinct).mp h
    exact List.mem_toFinset.mpr (List.mem_map_of_mem hmem)
  have hfuel : (nodes.map SemanticNode.nodeId).toFinset.card + 1 ≤ nodes.length + 1 := by
    have := List.toFinset_card_le (nodes.map SemanticNode.nodeId)
    rw [List.length_map] at this
    omega
  have hrelation : (fun a b => parentOf nodes a = some b) = ParentOf nodes := by
    funext a b
    exact propext (parentOf_eq_some_iff hdistinct)
  rw [isDescendant, decide_eq_true_eq, hancestry, mem_trail_iff hdomain hfuel, hrelation,
    Relation.TransGen.head'_iff]
  simp only [parentOf_eq_some_iff hdistinct]

end Ancestors

/-! ## Reachability -/

/-- A control edge leads from the one to the other. -/
def ControlStep (edges : List SemanticEdge) (a b : List Char) : Prop :=
  ∃ edge ∈ edges, edge.kind.isControl = true ∧ edge.sourceRef = a ∧ edge.targetRef = b

def Reachable (edges : List SemanticEdge) (a b : List Char) : Prop :=
  Relation.ReflTransGen (ControlStep edges) a b

theorem mem_adjacent {a b : List Char} :
    b ∈ adjacent edges a ↔ ControlStep edges a b := by
  simp only [adjacent, List.mem_map, List.mem_filter, Bool.and_eq_true,
    decide_eq_true_eq, and_assoc,
    ControlStep]

theorem mem_reachableRefs {entryId ref : List Char} :
    ref ∈ reachableRefs edges entryId ↔ Reachable edges entryId ref := by
  let domain := (entryId :: edges.map SemanticEdge.targetRef).toFinset
  have hdomain : ∀ a ∈ domain, ∀ b ∈ adjacent edges a, b ∈ domain := by
    intro a _ b hb
    obtain ⟨edge, hedge, -, -, rfl⟩ := mem_adjacent.mp hb
    exact List.mem_toFinset.mpr (List.mem_cons_of_mem _ (List.mem_map_of_mem hedge))
  have hfuel : domain.card ≤ edges.length + 1 := by
    have := List.toFinset_card_le (entryId :: edges.map SemanticEdge.targetRef)
    rwa [List.length_cons, List.length_map] at this
  have hrelation : (fun a b => b ∈ adjacent edges a) = ControlStep edges := by
    funext a b
    exact propext mem_adjacent
  rw
    [reachableRefs,
      mem_explore_iff hdomain (List.mem_toFinset.mpr List.mem_cons_self) hfuel, hrelation]
  rfl

/-- Control reaches the node, or it is the root of handlers of which it reaches a part. -/
def Live (nodes : List SemanticNode) (edges : List SemanticEdge) (entryId : List Char)
    (node : SemanticNode) : Prop :=
  Reachable edges entryId node.nodeId ∨
    node.kind = .errorHandler ∧ ∃ part ∈ nodes, Reachable edges entryId part.nodeId ∧
      Relation.TransGen (ParentOf nodes) part.nodeId node.nodeId

section Roots

variable {nodes : List SemanticNode}

/-- The root of a handler has a part that was reachable to begin with. -/
def RootOf (nodes : List SemanticNode) (reachable : List (List Char)) (node : SemanticNode) :
    Prop :=
  node.kind = .errorHandler ∧ ∃ part ∈ nodes, part.nodeId ∈ reachable ∧
    Relation.TransGen (ParentOf nodes) part.nodeId node.nodeId

/-- The handler roots that are reachable. -/
theorem mem_foldl_addHandlerRoot (hdistinct : (nodes.map SemanticNode.nodeId).Nodup)
    (start : List (List Char)) {roots : List SemanticNode} (hroots : roots ⊆ nodes)
    {reachable : List (List Char)} (hstart : start ⊆ reachable)
    (hsound : ∀ ref ∈ reachable, ref ∈ start ∨ ∃ node ∈ nodes, node.nodeId = ref ∧
      RootOf nodes start node)
    {ref : List Char} :
    ref ∈ roots.foldl (addHandlerRoot nodes) reachable ↔
      ref ∈ reachable ∨ ∃ node ∈ roots, node.nodeId = ref ∧ RootOf nodes start node := by
  induction roots generalizing reachable with
  | nil => simp
  | cons root roots ih =>
    obtain ⟨hroot, hroots⟩ := List.cons_subset.mp hroots
    have hadds : (root.kind = .errorHandler && nodes.any fun candidate =>
        candidate.nodeId ∈ reachable && isDescendant nodes candidate.nodeId root.nodeId) = true ↔
          RootOf nodes start root := by
      simp only [Bool.and_eq_true, decide_eq_true_eq, List.any_eq_true,
        isDescendant_iff hdistinct, RootOf]
      refine and_congr_right fun _ => ⟨?_, ?_⟩
      · rintro ⟨part, hpart, hreached, hbelow⟩
        rcases hsound part.nodeId hreached
        with h | ⟨inner, hinner, hid, -, part', hpart', hstart', hbelow'⟩
        · exact ⟨part, hpart, h, hbelow⟩
        · rw [← hid] at hbelow
          exact ⟨part', hpart', hstart', hbelow'.trans hbelow⟩
      · rintro ⟨part, hpart, hreached, hbelow⟩
        exact ⟨part, hpart, hstart hreached, hbelow⟩
    rw [List.foldl_cons, addHandlerRoot]
    split
    · next hadd =>
        have hrootOf := hadds.mp hadd
        rw [ih hroots (fun r hr => List.mem_cons_of_mem _ (hstart hr)) fun r hr => by
          rcases List.mem_cons.mp hr with rfl | hr
          · exact .inr ⟨root, hroot, rfl, hrootOf⟩
          · exact hsound r hr]
        simp only [List.mem_cons, exists_eq_or_imp]
        constructor
        · rintro ((rfl | h) | h)
          · exact .inr (.inl ⟨rfl, hrootOf⟩)
          · exact .inl h
          · exact .inr (.inr h)
        · rintro (h | ⟨rfl, -⟩ | h)
          · exact .inl (.inr h)
          · exact .inl (.inl rfl)
          · exact .inr h
    · next hskip =>
        rw [ih hroots hstart hsound]
        simp only [List.mem_cons, exists_eq_or_imp]
        constructor
        · rintro (h | h)
          · exact .inl h
          · exact .inr (.inr h)
        · rintro (h | ⟨-, hrootOf⟩ | h)
          · exact .inl h
          · exact absurd (hadds.mpr hrootOf) hskip
          · exact .inr h

end Roots

/-! ## The result -/

/-- The nodes and edges of a parser, each node with an id of its own. -/
structure ParsedFlow where
  nodes : List SemanticNode
  edges : List SemanticEdge
  entryId : List Char
  exitId : List Char
  distinct : (nodes.map SemanticNode.nodeId).Nodup
  entry : ∃ node ∈ nodes, node.nodeId = entryId ∧ node.kind = .entry
  exit : ∃ node ∈ nodes, node.nodeId = exitId ∧ node.kind = .exit
  closed : ∀ edge ∈ edges, (∃ node ∈ nodes, node.nodeId = edge.sourceRef) ∧
    ∃ node ∈ nodes, node.nodeId = edge.targetRef

def ParsedFlow.refine (g : ParsedFlow) (findings : List SemanticFinding) : RefinedFlow :=
  refineControlFlow g.nodes g.edges findings g.entryId g.exitId

/-- The edge leaves a statement that transfers control. -/
def leavesTransfer (nodes : List SemanticNode) (edge : SemanticEdge) : Bool :=
  nodes.any fun node => node.nodeId = edge.sourceRef &&
    node.kind ∈ [.return_, .errorRaise, .goto, .loopControl]

/-- A node of the parser and what has become of it. -/
structure RefinedNode (g : ParsedFlow) (out : RefinedFlow) (node refined : SemanticNode) :
    Prop where
  same : refined = { node with modality := refined.modality }
  kept : refined.modality = node.modality ∨ refined.modality = .unknown
  unknown : node.kind ∉ [.entry, .exit] → (refined.modality = .unknown ↔
    node.modality = .unknown ∨ ¬Live (sourceNodes g.nodes) out.edges g.entryId node)

/-- What a refined flow promises. -/
structure WellFormedFlow (g : ParsedFlow) (findings : List SemanticFinding) (out : RefinedFlow) :
    Prop where
  nodes : ∃ sources targets, out.nodes = sources ++ targets ∧
    List.Forall₂ (RefinedNode g out) (sourceNodes g.nodes) sources ∧
    TargetsOf (sourceNodes g.nodes) targets
  endpoints : ∀ edge ∈ out.edges, (∃ node ∈ out.nodes, node.nodeId = edge.sourceRef) ∧
    ((∃ node ∈ out.nodes, node.nodeId = edge.targetRef) ∨
      edge.key ∈ g.edges.map SemanticEdge.key ∧
        ∃ node ∈ g.nodes, node.kind = .callTarget ∧ node.nodeId = edge.targetRef)
  keys : (out.edges.map SemanticEdge.key).Nodup
  ids : out.edges.map SemanticEdge.edgeId = (List.range out.edges.length).map edgeId
  returns : ∀ node ∈ g.nodes, node.kind = .return_ →
    (out.edges.filter fun edge => edge.kind.isControl && edge.sourceRef = node.nodeId).map
      SemanticEdge.key = [returnEdge g.exitId node]
  transfers : refineControlFlow g.nodes (g.edges.filter fun edge =>
    !leavesTransfer g.nodes edge) findings
    g.entryId g.exitId = out

section Result

variable (g : ParsedFlow) (findings : List SemanticFinding)

theorem ParsedFlow.source_distinct : ((sourceNodes g.nodes).map SemanticNode.nodeId).Nodup :=
  g.distinct.sublist (List.filter_sublist.map _)

theorem mem_sourceNodes {nodes : List SemanticNode} {node : SemanticNode} :
    node ∈ sourceNodes nodes ↔ node ∈ nodes ∧ node.kind ≠ .callTarget := by
  rw [sourceNodes, List.mem_filter, decide_eq_true_eq]

theorem adjust_nodeId (reachable : List (List Char)) (node : SemanticNode) :
    (adjust reachable node).nodeId = node.nodeId := by
  rw [adjust]
  split <;> rfl

theorem refined_nodes : ∃ reachable, (g.refine findings).nodes =
    (sourceNodes g.nodes).map (adjust reachable) ++ callTargets (sourceNodes g.nodes) ∧
      ∀ node ∈ sourceNodes g.nodes, (node.nodeId ∈ reachable ↔
        Live (sourceNodes g.nodes) (g.refine findings).edges g.entryId node) := by
  refine ⟨_, (List.map_append).trans (congrArg _ ?_), ?_⟩
  · apply (List.map_congr_left _).trans (List.map_id _)
    intro target htarget
    rw [adjust, if_pos (.inl (by rw [(targetsOf_callTargets _).kinds target htarget]; decide))]
    rfl
  · intro node hnode
    rw [mem_foldl_addHandlerRoot g.source_distinct _ (List.Subset.refl _) (List.Subset.refl _)
      fun ref href => .inl href]
    simp only [mem_reachableRefs, RootOf]
    refine or_congr_right ⟨?_, fun h => ⟨node, hnode, rfl, h⟩⟩
    rintro ⟨other, hother, hid, hroot⟩
    rwa [node_unique g.source_distinct hother hnode hid] at hroot

theorem refined_node {reachable : List (List Char)} {out : RefinedFlow} {node : SemanticNode}
    (hlive : node.nodeId ∈ reachable ↔ Live (sourceNodes g.nodes) out.edges g.entryId node)
    (hkind : node.kind ≠ .callTarget) : RefinedNode g out node (adjust reachable node) := by
  rw [adjust]
  split
  · next h =>
      refine ⟨rfl, .inl rfl, fun hplain => ?_⟩
      -- neither the entry nor the exit: it is kept because it is live
      have hreached : node.nodeId ∈ reachable := by
        rcases h with h | h
        · simp only [List.mem_cons, List.not_mem_nil, or_false] at h hplain
          tauto
        · exact h
      exact (or_iff_left fun hdead => hdead (hlive.mp hreached)).symm
  · next h =>
      refine ⟨rfl, .inr rfl, fun _ => ?_⟩
      have hdead : ¬Live (sourceNodes g.nodes) out.edges g.entryId node := fun h' =>
        h (.inr (hlive.mpr h'))
      exact iff_of_true rfl (.inr hdead)

theorem refined_endpoint {ref : List Char}
    (h : Place (sourceNodes g.nodes) g.exitId ref ∨
      ∃ node ∈ callTargets (sourceNodes g.nodes), node.nodeId = ref) :
    ∃ node ∈ (g.refine findings).nodes, node.nodeId = ref := by
  obtain ⟨reachable, hnodes, -⟩ := refined_nodes g findings
  have hsource {node : SemanticNode} (hmem : node ∈ sourceNodes g.nodes) :
      ∃ refined ∈ (g.refine findings).nodes, refined.nodeId = node.nodeId := by
    rw [hnodes]
    exact ⟨adjust reachable node, List.mem_append_left _ (List.mem_map_of_mem hmem),
      adjust_nodeId _ _⟩
  rcases h with (rfl | ⟨node, hmem, rfl⟩) | ⟨target, hmem, rfl⟩
  · obtain ⟨node, hmem, hid, hkind⟩ := g.exit
    rw [← hid]
    apply hsource
    exact mem_sourceNodes.mpr ⟨hmem, by rw [hkind]; decide⟩
  · exact hsource hmem
  · rw [hnodes]
    exact ⟨target, List.mem_append_right _ hmem, rfl⟩

theorem mem_refine_keys {key : EdgeKey} : key ∈ (g.refine findings).edges.map SemanticEdge.key ↔
    key ∈ (g.edges.filter (keepsEdge (sourceNodes g.nodes))).map SemanticEdge.key ∨
      (key ∈ requestedEdges (sourceNodes g.nodes) g.exitId ∧
        (key.sourceRef ≠ key.targetRef ∨ key.kind = .loopBack)) :=
  mem_refined_keys

theorem refine_keys_nodup : ((g.refine findings).edges.map SemanticEdge.key).Nodup := by
  show ((uniqueEdges _).map SemanticEdge.key).Nodup
  rw [keys_uniqueEdges]
  exact nodup_keys_distinctEdges [] _

theorem refined_endpoints {edge : SemanticEdge} (h : edge ∈ (g.refine findings).edges) :
    (∃ node ∈ (g.refine findings).nodes, node.nodeId = edge.sourceRef) ∧
      ((∃ node ∈ (g.refine findings).nodes, node.nodeId = edge.targetRef) ∨
        edge.key ∈ g.edges.map SemanticEdge.key ∧
          ∃ node ∈ g.nodes, node.kind = .callTarget ∧ node.nodeId = edge.targetRef) := by
  rcases (mem_refine_keys g findings).mp (List.mem_map_of_mem h) with hkept | ⟨hrequested, -⟩
  · -- an edge of the parser
    obtain ⟨old, hold, hkey⟩ := List.mem_map.mp hkept
    obtain ⟨hmem, hkeeps⟩ := List.mem_filter.mp hold
    obtain ⟨source, hsource, -⟩ := keepsEdge_source hkeeps
    obtain ⟨hsourceMem, hsourceId⟩ := byId_spec hsource
    have hfrom : old.sourceRef = edge.sourceRef := congrArg EdgeKey.sourceRef hkey
    have hto : old.targetRef = edge.targetRef := congrArg EdgeKey.targetRef hkey
    obtain ⟨target, htarget, htargetId⟩ := (g.closed old hmem).2
    refine
      ⟨refined_endpoint g findings (.inl (.inr ⟨source, hsourceMem, hsourceId.trans hfrom⟩)), ?_⟩
    by_cases hkind : target.kind = .callTarget
    · refine .inr ⟨?_, target, htarget, hkind, htargetId.trans hto⟩
      rw [← hkey]
      exact List.mem_map_of_mem hmem
    · exact .inl (refined_endpoint g findings (.inl (.inr
        ⟨target, mem_sourceNodes.mpr ⟨htarget, hkind⟩, htargetId.trans hto⟩)))
  · -- an edge some pass asked for
    obtain ⟨⟨source, hsource, hid, -⟩, htarget⟩ := requestedEdges_requested hrequested
    exact ⟨refined_endpoint g findings (.inl (.inr ⟨source, hsource, hid⟩)),
      .inl (refined_endpoint g findings htarget)⟩

theorem keepsEdge_not_leavesTransfer {edge : SemanticEdge}
    (h : keepsEdge (sourceNodes g.nodes) edge = true) : leavesTransfer g.nodes edge = false := by
  obtain ⟨source, hsource, hterminal, hcontrol⟩ := keepsEdge_source h
  obtain ⟨hmem, hid⟩ := byId_spec hsource
  rw [leavesTransfer, List.any_eq_false]
  intro node hnode hleaves
  rw [Bool.and_eq_true, decide_eq_true_eq, decide_eq_true_eq] at hleaves
  rw [node_unique g.distinct hnode (mem_sourceNodes.mp hmem).1 (hleaves.1.trans hid.symm)]
    at hleaves
  simp only [List.mem_cons, List.not_mem_nil, or_false, terminalKinds] at hleaves hterminal
  tauto

/-- Control goes from a `RETURN` to the exit only. -/
theorem return_control_edges {node : SemanticNode} (hnode : node ∈ g.nodes)
    (hkind : node.kind = .return_) :
    ((g.refine findings).edges.filter fun edge =>
      edge.kind.isControl && edge.sourceRef = node.nodeId).map SemanticEdge.key =
        [returnEdge g.exitId node] := by
  have hsource : node ∈ sourceNodes g.nodes := mem_sourceNodes.mpr ⟨hnode, by rw [hkind]; decide⟩
  have hnodup := (refine_keys_nodup g findings).sublist
    ((List.filter_sublist (p := fun edge : SemanticEdge =>
      edge.kind.isControl && edge.sourceRef = node.nodeId)).map SemanticEdge.key)
  apply List.perm_singleton.mp
  apply (List.perm_ext_iff_of_nodup hnodup (List.nodup_singleton _)).mpr
  intro key
  rw [List.mem_singleton]
  constructor
  · intro hmem
    obtain ⟨edge, hedge, rfl⟩ := List.mem_map.mp hmem
    obtain ⟨hedge, hout⟩ := List.mem_filter.mp hedge
    rw [Bool.and_eq_true, decide_eq_true_eq] at hout
    rcases (mem_refine_keys g findings).mp (List.mem_map_of_mem hedge) with hkept | ⟨hrequested, -⟩
    · -- no edge of the parser leaves it any more
      obtain ⟨old, hold, hkey⟩ := List.mem_map.mp hkept
      have hstays := keepsEdge_not_leavesTransfer g (List.mem_filter.mp hold).2
      have hfrom : node.nodeId = old.sourceRef :=
        hout.2.symm.trans (congrArg EdgeKey.sourceRef hkey).symm
      have hleaves : leavesTransfer g.nodes old = true := by
        rw [leavesTransfer, List.any_eq_true]
        exact ⟨node, hnode, by rw [hkind]; simp [hfrom]⟩
      rw [hstays] at hleaves
      exact nomatch hleaves
    · obtain ⟨⟨source, hmem, hid, hreturn⟩, -⟩ := requestedEdges_requested hrequested
      obtain rfl := node_unique g.source_distinct hmem hsource (hid.trans hout.2)
      rcases hreturn hkind with h | h
      · exact h
      · exact absurd hout.1 (by rw [show edge.kind = edge.key.kind from rfl, h]; decide)
  · rintro rfl
    have hrequested : returnEdge g.exitId node ∈ requestedEdges (sourceNodes g.nodes) g.exitId := by
      unfold requestedEdges
      simp only [List.mem_append]
      have htransfer : (transfer (sourceNodes g.nodes) g.exitId node).bind Except.toOption =
          some (returnEdge g.exitId node) := by
        unfold transfer
        rw [hkind]
        rfl
      have hmem : returnEdge g.exitId node ∈ (sourceNodes g.nodes).filterMap fun node =>
          (transfer (sourceNodes g.nodes) g.exitId node).bind Except.toOption :=
        List.mem_filterMap.mpr ⟨node, hsource, htransfer⟩
      tauto
    have hother : (returnEdge g.exitId node).sourceRef ≠ (returnEdge g.exitId node).targetRef := by
      obtain ⟨last, hlast, hid, hexit⟩ := g.exit
      intro heq
      have hsame := node_unique g.distinct hnode hlast (heq.trans hid.symm)
      rw [hsame, hexit] at hkind
      exact nomatch hkind
    obtain ⟨edge, hedge, hkey⟩ := List.mem_map.mp
      ((mem_refine_keys g findings).mpr (.inr ⟨hrequested, .inl hother⟩))
    refine List.mem_map.mpr ⟨edge, List.mem_filter.mpr ⟨hedge, ?_⟩, hkey⟩
    rw [show edge.kind = edge.key.kind from rfl, show edge.sourceRef = edge.key.sourceRef
      from rfl, hkey]
    simp [returnEdge, EdgeKind.isControl]

theorem refine_without_transfers :
    refineControlFlow g.nodes (g.edges.filter fun edge => !leavesTransfer g.nodes edge) findings
      g.entryId g.exitId = g.refine findings := by
  have hsame : (g.edges.filter fun edge => !leavesTransfer g.nodes edge).filter
      (keepsEdge (sourceNodes g.nodes)) = g.edges.filter (keepsEdge (sourceNodes g.nodes)) := by
    rw [List.filter_filter]
    apply List.filter_congr
    intro edge _
    cases hkeeps : keepsEdge (sourceNodes g.nodes) edge with
    | true => rw [keepsEdge_not_leavesTransfer g hkeeps]; rfl
    | false => rfl
  rw [ParsedFlow.refine, refineControlFlow, refineControlFlow, controlEdges, controlEdges, hsame]

/-- Refining keeps the nodes, numbers distinct edges between nodes, gives a RETURN the exit and
nothing else, and marks what control does not reach. -/
theorem refined_flow_wellFormed : WellFormedFlow g findings (g.refine findings) := by
  obtain ⟨reachable, hnodes, hlive⟩ := refined_nodes g findings
  constructor
  · refine ⟨_, _, hnodes, ?_, targetsOf_callTargets _⟩
    rw [List.forall₂_map_right_iff, List.forall₂_same]
    exact fun node hnode => refined_node g (hlive node hnode) (mem_sourceNodes.mp hnode).2
  · exact fun edge hedge => refined_endpoints g findings hedge
  · exact refine_keys_nodup g findings
  · exact ids_uniqueEdges _
  · exact fun node hnode hkind => return_control_edges g findings hnode hkind
  · exact refine_without_transfers g findings

end Result

/-! ## Modalities that are unknown before -/

/-- UNKNOWN says that control does not reach the node, and nothing else. -/
def UnknownIsDead (g : ParsedFlow) (out : RefinedFlow) : Prop :=
  ∀ node ∈ out.nodes, node.kind ∉ [.entry, .exit, .callTarget] →
    (node.modality = .unknown ↔ ¬Live (sourceNodes g.nodes) out.edges g.entryId node)

instance (edges : List SemanticEdge) (a b : List Char) : Decidable (ControlStep edges a b) :=
  inferInstanceAs (Decidable (∃ edge ∈ edges, _))

def doubtfulNode : SemanticNode where
  nodeId := "node-0001".toList
  kind := .opaqueStatement
  text := "SET ROLE AUDITOR;".toList
  sourceSpan := ⟨0, 17⟩
  modality := .unknown

/-- One statement between the entry and the exit, with the modality `UNKNOWN`. The parser gives no
node this modality; the refinement takes any list of nodes. -/
def doubtfulFlow : ParsedFlow where
  nodes :=
    [⟨"node-entry".toList, .entry, "ENTRY P".toList, ⟨0, 0⟩, none, none, none, [], [], none, none,
      .must, []⟩, doubtfulNode,
      ⟨"node-exit".toList, .exit, "EXIT P".toList, ⟨17, 17⟩, none, none, none, [],
      [], none, none, .must, []⟩]
  edges := [⟨"edge-0001".toList, "node-entry".toList, "node-0001".toList, .next, none⟩,
    ⟨"edge-0002".toList, "node-0001".toList, "node-exit".toList, .next, none⟩]
  entryId := "node-entry".toList
  exitId := "node-exit".toList
  distinct := by decide +kernel
  entry := by decide +kernel
  exit := by decide +kernel
  closed := by decide +kernel

/-- Control reaches the statement, and its modality is UNKNOWN all the same. -/
theorem unknown_is_not_dead : ¬UnknownIsDead doubtfulFlow (doubtfulFlow.refine []) := by
  intro h
  have hmem : doubtfulNode ∈ (doubtfulFlow.refine []).nodes := by decide +kernel
  have hstep : ControlStep (doubtfulFlow.refine []).edges doubtfulFlow.entryId
    doubtfulNode.nodeId := by
    decide +kernel
  exact (h doubtfulNode hmem (by decide)).mp rfl (.inl (.single hstep))

end AtlasDb.Dialects
