import AtlasDb.Dialects.ControlFlow

/-!
# The edges of the refined flow

What each pass asks for (`Requested`): the source is a node, only the transfer of a RETURN leaves it
by a control edge, the target is a node, the exit or a call target, and a data dependency comes from
the last writer in front of the node that reads.
-/

namespace AtlasDb.Dialects

open Core Lib

section Lookups

variable {nodes : List SemanticNode} {exitId : List Char}

/-! ## Nodes by their id -/

theorem byId_spec {ref : List Char} {node : SemanticNode} (h : byId nodes ref = some node) :
    node ∈ nodes ∧ node.nodeId = ref := by
  rw [byId] at h
  exact ⟨List.mem_reverse.mp (List.mem_of_find?_eq_some h), by simpa using List.find?_some h⟩

theorem node_unique (hdistinct : (nodes.map SemanticNode.nodeId).Nodup) {a b : SemanticNode}
    (ha : a ∈ nodes) (hb : b ∈ nodes) (h : a.nodeId = b.nodeId) : a = b :=
  List.inj_on_of_nodup_map hdistinct ha hb h

theorem byId_of_mem (hdistinct : (nodes.map SemanticNode.nodeId).Nodup) {node : SemanticNode}
    (h : node ∈ nodes) : byId nodes node.nodeId = some node := by
  cases hfind : byId nodes node.nodeId with
  | none =>
    have hno := List.find?_eq_none.mp hfind node (List.mem_reverse.mpr h)
    simp at hno
  | some found =>
    obtain ⟨hmem, hid⟩ := byId_spec hfind
    rw [node_unique hdistinct hmem h hid]

theorem mem_of_following {ref : List Char} {node : SemanticNode} (h : node ∈ following nodes ref) :
    node ∈ nodes :=
  List.mem_of_mem_drop h

theorem mem_of_slice {start stop : Nat} {node : SemanticNode} (h : node ∈ slice nodes start stop) :
    node ∈ nodes :=
  List.mem_of_mem_take (List.mem_of_mem_drop h)

/-! ## Targets -/

/-- A node or the exit. -/
def Place (nodes : List SemanticNode) (exitId ref : List Char) : Prop :=
  ref = exitId ∨ ∃ node ∈ nodes, node.nodeId = ref

theorem Place.node {node : SemanticNode} (h : node ∈ nodes) : Place nodes exitId node.nodeId :=
  .inr ⟨node, h, rfl⟩

theorem place_firstAfter (index : Nat) : Place nodes exitId (firstAfter nodes exitId index) := by
  rw [firstAfter]
  cases hget : nodes[index + 1]? with
  | none => exact .inl rfl
  | some node => exact .node (List.mem_of_getElem? hget)

theorem place_loopExit (loop : SemanticNode) : Place nodes exitId (loopExit nodes exitId loop) := by
  rw [loopExit]
  split
  · exact place_firstAfter _
  · exact .inl rfl

theorem place_labelRef {name ref : List Char} (h : given (labelRef nodes name) = some ref) :
    Place nodes exitId ref := by
  obtain ⟨h, -⟩ := Option.filter_eq_some_iff.mp h
  rw [labelRef] at h
  obtain ⟨node, hfind, rfl⟩ := Option.map_eq_some_iff.mp h
  exact .node (List.mem_reverse.mp (List.mem_of_find?_eq_some hfind))

theorem mem_of_enclosingLoop {node loop : SemanticNode} (h : enclosingLoop nodes node = some loop) :
    loop ∈ nodes := by
  obtain ⟨ref, -, h⟩ := List.exists_of_findSome?_eq_some h
  obtain ⟨h, -⟩ := Option.filter_eq_some_iff.mp h
  exact (byId_spec h).1

theorem mem_of_handlerCandidates {conservative : Bool} {node : SemanticNode}
    {candidate : HandlerCandidate}
    (h : candidate ∈ handlerCandidates nodes conservative node) : candidate.handler ∈ nodes := by
  rw [handlerCandidates] at h
  split at h
  · exact nomatch h
  · obtain ⟨handler, hmem, hcandidate⟩ := List.mem_filterMap.mp (List.mem_filter.mp h).1
    have hhandler : handler ∈ nodes := (List.mem_filter.mp hmem).1
    rw [handlerCandidate] at hcandidate
    split at hcandidate
    · exact nomatch hcandidate
    · dsimp only at hcandidate
      split at hcandidate
      · exact nomatch hcandidate
      · split at hcandidate
        · exact nomatch hcandidate
        · obtain ⟨n, -, rfl⟩ := Option.map_eq_some_iff.mp hcandidate
          exact hhandler

theorem mem_of_applicableHandler {node handler : SemanticNode}
    (h : applicableHandler nodes node = some handler) : handler ∈ nodes := by
  obtain ⟨candidate, hmax, rfl⟩ := Option.map_eq_some_iff.mp h
  exact mem_of_handlerCandidates (List.argmax_mem hmax)

/-! ## What the passes ask for -/

/-- The edge a RETURN gets. -/
def returnEdge (exitId : List Char) (node : SemanticNode) : EdgeKey :=
  ⟨node.nodeId, exitId, .branch, some "RETURN".toList⟩

/-- The node standing last among those that write the variable. -/
def LastWriter (before : List SemanticNode) (variable_ writer : List Char) : Prop :=
  ∃ earlier node later, before = earlier ++ node :: later ∧ node.nodeId = writer ∧
    variable_ ∈ node.variableWrites ∧ ∀ other ∈ later, variable_ ∉ other.variableWrites

/-- The node that reads the variable, and the last writer in front of it. -/
def DependsOnLastWriter (nodes : List SemanticNode) (key : EdgeKey) : Prop :=
  ∃ before reader after variable_, nodes = before ++ reader :: after ∧
    variable_ ∈ reader.variableReads ∧ LastWriter before variable_ key.sourceRef ∧
    key.sourceRef ≠ [] ∧ key.sourceRef ≠ reader.nodeId ∧
    key = ⟨key.sourceRef, reader.nodeId, .dataDependency, some variable_⟩

/-- A request of some pass. -/
structure Requested (nodes : List SemanticNode) (exitId : List Char) (key : EdgeKey) : Prop where
  source : ∃ node ∈ nodes, node.nodeId = key.sourceRef ∧
    (node.kind = .return_ → key = returnEdge exitId node ∨ key.kind.isControl = false)
  target : Place nodes exitId key.targetRef ∨
    ∃ node ∈ callTargets nodes, node.nodeId = key.targetRef
  dependency : key.kind = .dataDependency → DependsOnLastWriter nodes key

variable {key : EdgeKey}

theorem Requested.of_node {node : SemanticNode} (hmem : node ∈ nodes)
    (hsource : key.sourceRef = node.nodeId) (hreturn : node.kind ≠ .return_)
    (htarget : Place nodes exitId key.targetRef) (hkind : key.kind ≠ .dataDependency) :
    Requested nodes exitId key :=
  ⟨⟨node, hmem, hsource.symm, fun h => absurd h hreturn⟩, .inl htarget, fun h => absurd h hkind⟩

theorem ne_return_of_not_terminal {node : SemanticNode} (h : node.kind ∉ terminalKinds) :
    node.kind ≠ .return_ := by
  intro hreturn
  exact h (by rw [hreturn]; decide)

/-- The edge of a handler is a requested one. -/
theorem handlerEdge_requested {handler : SemanticNode}
    (hmem : handler ∈ handlers nodes) (h : handlerEdge nodes exitId handler = some key) :
    Requested nodes exitId key := by
  obtain ⟨hhandler, hkind⟩ := List.mem_filter.mp hmem
  have hreturn : handler.kind ≠ .return_ := by
    rw [of_decide_eq_true hkind]
    decide
  unfold handlerEdge at h
  simp only [Option.bind_eq_bind] at h
  split at h
  · -- a declared handler with a compound body
    obtain ⟨first, -, h⟩ := Option.bind_eq_some_iff.mp h
    obtain ⟨stop, -, h⟩ := Option.bind_eq_some_iff.mp h
    cases h
    exact .of_node hhandler rfl hreturn (place_firstAfter _) nofun
  · split at h
    · -- BEGIN TRY
      obtain ⟨endTry, htry, h⟩ := Option.bind_eq_some_iff.mp h
      obtain ⟨beginCatch, -, h⟩ := Option.bind_eq_some_iff.mp h
      obtain ⟨endCatch, -, h⟩ := Option.bind_eq_some_iff.mp h
      cases h
      have hblock := List.find?_some htry
      rw [Bool.and_eq_true, decide_eq_true_eq] at hblock
      refine .of_node (mem_of_following (List.mem_of_find?_eq_some htry)) rfl ?_
        (place_firstAfter _)
        nofun
      rw [hblock.1]
      decide
    · split at h
      · -- an exception section: the statement in front of it goes on behind its end
        obtain ⟨previous, hprevious, h⟩ := Option.bind_eq_some_iff.mp h
        obtain ⟨stop, hstop, h⟩ := Option.bind_eq_some_iff.mp h
        split at h
        · exact nomatch h
        · next hterminal =>
            cases h
            exact .of_node (List.mem_of_mem_take (List.mem_of_getLast? hprevious)) rfl
              (ne_return_of_not_terminal hterminal)
              (.node (mem_of_following (List.mem_of_find?_eq_some hstop))) nofun
      · exact nomatch h

theorem gotoTransfer_spec {node : SemanticNode} (h : gotoTransfer nodes node = some key) :
    key.sourceRef = node.nodeId ∧ Place nodes exitId key.targetRef ∧
    key.kind ≠ .dataDependency := by
  unfold gotoTransfer at h
  simp only [Option.bind_eq_bind] at h
  obtain ⟨label, -, h⟩ := Option.bind_eq_some_iff.mp h
  obtain ⟨target, htarget, h⟩ := Option.bind_eq_some_iff.mp h
  cases h
  exact ⟨rfl, place_labelRef htarget, nofun⟩

theorem labelledTransfer_spec {node : SemanticNode}
    (h : labelledTransfer nodes exitId node = some key) :
    key.sourceRef = node.nodeId ∧ Place nodes exitId key.targetRef ∧
    key.kind ≠ .dataDependency := by
  unfold labelledTransfer at h
  simp only [Option.bind_eq_bind] at h
  obtain ⟨targetLabel, -, h⟩ := Option.bind_eq_some_iff.mp h
  obtain ⟨ref, -, h⟩ := Option.bind_eq_some_iff.mp h
  split at h
  · next loop hloop =>
      cases h
      split at hloop
      · exact ⟨rfl, .node (mem_of_following (List.mem_of_find?_eq_some hloop)), nofun⟩
      · exact nomatch hloop
  · obtain ⟨endLabel, -, h⟩ := Option.bind_eq_some_iff.mp h
    cases h
    exact ⟨rfl, place_firstAfter _, nofun⟩

theorem enclosingTransfer_spec {node : SemanticNode}
    (h : enclosingTransfer nodes exitId node = some key) :
    key.sourceRef = node.nodeId ∧ Place nodes exitId key.targetRef ∧
    key.kind ≠ .dataDependency := by
  unfold enclosingTransfer at h
  simp only [Option.bind_eq_bind] at h
  obtain ⟨loop, hloop, h⟩ := Option.bind_eq_some_iff.mp h
  split at h
  · cases h
    exact ⟨rfl, .node (mem_of_enclosingLoop hloop), nofun⟩
  · cases h
    exact ⟨rfl, place_loopExit loop, nofun⟩

/-- So is the edge of a transfer of control. -/
theorem transfer_requested {node : SemanticNode} (hmem : node ∈ nodes)
    (h : transfer nodes exitId node = some (.ok key)) : Requested nodes exitId key := by
  unfold transfer at h
  split at h
  · -- RETURN
    cases h
    exact ⟨⟨node, hmem, rfl, fun _ => .inl rfl⟩, .inl (.inl rfl), nofun⟩
  · -- an error that is raised
    next hkind =>
      cases h
      refine .of_node hmem rfl (by rw [hkind]; decide) ?_ nofun
      show Place nodes exitId ((applicableHandler nodes node).elim exitId SemanticNode.nodeId)
      cases hhandler : applicableHandler nodes node with
      | none => exact .inl rfl
      | some handler => exact .node (mem_of_applicableHandler hhandler)
  · -- GOTO
    next hkind =>
      split at h
      · next key' hkey =>
          cases h
          obtain ⟨hsource, htarget, hcontrol⟩ := gotoTransfer_spec hkey
          exact .of_node hmem hsource (by rw [hkind]; decide) htarget hcontrol
      · cases h
  · -- a loop control
    next hkind =>
      split at h
      · next key' hkey =>
          cases h
          have hspec : key.sourceRef = node.nodeId ∧ Place nodes exitId key.targetRef ∧
            key.kind ≠ .dataDependency := by
            rcases Option.or_eq_some_iff.mp hkey with hkey | ⟨-, hkey⟩
            · exact labelledTransfer_spec hkey
            · exact enclosingTransfer_spec hkey
          exact .of_node hmem hspec.1 (by rw [hkind]; decide) hspec.2.1 hspec.2.2
      · cases h
  · exact nomatch h

theorem loopFalseExit_requested {node : SemanticNode} (hmem : node ∈ nodes)
    (h : loopFalseExit nodes exitId node = some key) : Requested nodes exitId key := by
  rw [loopFalseExit] at h
  split at h
  · next hkind =>
      cases h
      exact .of_node hmem rfl (by rw [hkind]; decide) (place_loopExit node) nofun
  · exact nomatch h

theorem joinEdge_requested {joinTarget : List Char} (htarget : Place nodes exitId joinTarget)
    {branch : SemanticNode} {stop : Nat}
    (h : joinEdge nodes joinTarget branch stop = some key) : Requested nodes exitId key := by
  rw [joinEdge] at h
  split at h
  · next last hlast =>
      split at h
      · exact nomatch h
      · next hkind =>
          cases h
          have hmem := (List.mem_filter.mp (List.mem_of_getLast? hlast)).1
          exact .of_node (mem_of_slice hmem) rfl
            (ne_return_of_not_terminal fun hterminal => hkind (.inl hterminal)) htarget nofun
  · exact nomatch h

theorem decisionEdges_requested {root : SemanticNode} (hmem : root ∈ nodes)
    (h : key ∈ decisionEdges nodes exitId root) : Requested nodes exitId key := by
  unfold decisionEdges at h
  dsimp only at h
  split at h
  · exact nomatch h
  · next hkind =>
      have hroot : root.kind ≠ .return_ := by
        intro hreturn
        rw [hreturn] at hkind
        exact hkind (by decide)
      split at h
      · exact nomatch h
      · split at h
        · exact nomatch h
        · rcases List.mem_append.mp h with h | h
          · rcases List.mem_append.mp h with h | h
            · obtain ⟨branch, -, hjoin⟩ := List.mem_filterMap.mp h
              exact joinEdge_requested (place_firstAfter _) hjoin
            · split at h
              · rw [List.mem_singleton] at h
                subst h
                exact .of_node hmem rfl hroot (place_firstAfter _) nofun
              · exact nomatch h
          · split at h
            · rw [List.mem_singleton] at h
              subst h
              exact .of_node hmem rfl hroot (place_firstAfter _) nofun
            · exact nomatch h

theorem exceptionEdges_requested {node : SemanticNode} (hmem : node ∈ nodes)
    (h : key ∈ exceptionEdges nodes node) : Requested nodes exitId key := by
  rw [exceptionEdges] at h
  split at h
  · exact nomatch h
  · next hkind =>
      obtain ⟨candidate, hcandidate, rfl⟩ := List.mem_map.mp h
      refine .of_node hmem rfl ?_ (.node (mem_of_handlerCandidates hcandidate)) nofun
      intro hreturn
      rw [hreturn] at hkind
      exact hkind (by decide)

theorem callEdge_requested {node : SemanticNode} (hmem : node ∈ nodes)
    (h : callEdge nodes node = some key) : Requested nodes exitId key := by
  unfold callEdge at h
  simp only [Option.bind_eq_bind] at h
  obtain ⟨target, -, h⟩ := Option.bind_eq_some_iff.mp h
  obtain ⟨targetNode, hfind, h⟩ := Option.bind_eq_some_iff.mp h
  cases h
  exact ⟨⟨node, hmem, rfl, fun _ => .inr rfl⟩,
    .inr ⟨targetNode, List.mem_of_find?_eq_some hfind, rfl⟩,
    nofun⟩

/-! ## Last writers -/

theorem lastWriter_recordWrites (writers : LastWriters) (node : SemanticNode)
    (variable_ : List Char) :
    lastWriter (recordWrites writers node) variable_ =
      if variable_ ∈ node.variableWrites then some node.nodeId
      else lastWriter writers variable_ := by
  rw [recordWrites]
  generalize node.variableWrites = writes
  induction writes generalizing writers with
  | nil => rw [List.foldl_nil, if_neg List.not_mem_nil]
  | cons w writes ih =>
    rw [List.foldl_cons, ih]
    by_cases hrest : variable_ ∈ writes
    · rw [if_pos hrest, if_pos (List.mem_cons_of_mem _ hrest)]
    · rw [if_neg hrest]
      by_cases hw : w = variable_
      · subst hw
        rw [if_pos List.mem_cons_self, lastWriter, List.find?_cons_of_pos (by simp)]
        rfl
      · have hnot : variable_ ∉ w :: writes := by
          rw [List.mem_cons]
          rintro (h | h)
          · exact hw h.symm
          · exact hrest h
        rw [if_neg hnot, lastWriter, List.find?_cons_of_neg (by simpa using hw)]
        rfl

theorem lastWriter_concat {before : List SemanticNode} {node : SemanticNode}
    {variable_ writer : List Char} :
    LastWriter (before ++ [node]) variable_ writer ↔
      if variable_ ∈ node.variableWrites then node.nodeId = writer
      else LastWriter before variable_ writer := by
  constructor
  · rintro ⟨earlier, found, later, hsplit, hid, hwrites, hlater⟩
    rcases List.eq_nil_or_concat later with rfl | ⟨later, last, rfl⟩
    · obtain ⟨-, hnode⟩ := List.append_inj' hsplit rfl
      obtain rfl : node = found := (List.cons.inj hnode).1
      rw [if_pos hwrites]
      exact hid
    · rw [List.concat_eq_append, ← List.cons_append, ← List.append_assoc] at hsplit
      obtain ⟨hbefore, hnode⟩ := List.append_inj' hsplit rfl
      obtain rfl : node = last := (List.cons.inj hnode).1
      rw [if_neg (hlater node (by simp))]
      exact ⟨earlier, found, later, hbefore, hid, hwrites, fun other hother =>
        hlater other (by simp [hother])⟩
  · intro h
    split at h
    · next hwrites => exact ⟨before, node, [], rfl, h, hwrites, fun _ hother => (nomatch hother)⟩
    · next hwrites =>
        obtain ⟨earlier, found, later, rfl, hid, hfound, hlater⟩ := h
        refine ⟨earlier, found, later ++ [node], by simp, hid, hfound, fun other hother => ?_⟩
        rcases List.mem_append.mp hother with hother | hother
        · exact hlater other hother
        · rw [List.mem_singleton.mp hother]
          exact hwrites

/-- The data dependencies are those on last writers. -/
theorem mem_dependencyEdges {before : List SemanticNode} {writers : LastWriters}
    (hwriters : ∀ variable_ writer, lastWriter writers variable_ = some writer ↔
      LastWriter before variable_ writer) {nodes : List SemanticNode} {key : EdgeKey} :
    key ∈ dependencyEdges writers nodes ↔
      ∃ passed reader after variable_, nodes = passed ++ reader :: after ∧
        variable_ ∈ reader.variableReads ∧ LastWriter (before ++ passed) variable_ key.sourceRef ∧
        key.sourceRef ≠ [] ∧ key.sourceRef ≠ reader.nodeId ∧
        key = ⟨key.sourceRef, reader.nodeId, .dataDependency, some variable_⟩ := by
  induction nodes generalizing before writers with
  | nil =>
    constructor
    · exact fun h => (nomatch h)
    · rintro ⟨passed, reader, after, variable_, h, -⟩
      exact absurd h.symm (by simp)
  | cons node rest ih =>
    have hnext (variable_ writer : List Char) :
        lastWriter (recordWrites writers node) variable_ = some writer ↔
          LastWriter (before ++ [node]) variable_ writer := by
      rw [lastWriter_recordWrites, lastWriter_concat]
      split
      · exact Option.some_inj
      · exact hwriters variable_ writer
    rw [dependencyEdges, List.mem_append, ih hnext]
    constructor
    · rintro (h | ⟨passed, reader, after, variable_, rfl, hread, hlast, hrest⟩)
      · obtain ⟨variable_, hread, hedge⟩ := List.mem_filterMap.mp h
        unfold dependencyEdge at hedge
        simp only [Option.bind_eq_bind] at hedge
        obtain ⟨writer, hwriter, hedge⟩ := Option.bind_eq_some_iff.mp hedge
        obtain ⟨hwriter, hgiven⟩ := Option.filter_eq_some_iff.mp hwriter
        split at hedge
        · exact nomatch hedge
        · next hne =>
            cases hedge
            refine ⟨[], node, rest, variable_, rfl, hread, ?_, by simpa using hgiven, hne, rfl⟩
            rw [List.append_nil]
            exact (hwriters variable_ writer).mp hwriter
      · refine ⟨node :: passed, reader, after, variable_, rfl, hread, ?_, hrest⟩
        rw [← List.singleton_append, ← List.append_assoc]
        exact hlast
    · rintro ⟨passed, reader, after, variable_, hsplit, hread, hlast, hgiven, hne, hkey⟩
      cases passed with
      | nil =>
        obtain ⟨rfl, rfl⟩ := List.cons.inj hsplit
        rw [List.append_nil] at hlast
        refine .inl (List.mem_filterMap.mpr ⟨variable_, hread, ?_⟩)
        rw [dependencyEdge, (hwriters variable_ key.sourceRef).mpr hlast, given,
          Option.filter_some, if_pos (by simpa using hgiven)]
        show (if key.sourceRef = node.nodeId then none else _) = some key
        rw [if_neg hne]
        exact congrArg some hkey.symm
      | cons first passed =>
        obtain ⟨rfl, rfl⟩ := List.cons.inj hsplit
        refine .inr ⟨passed, reader, after, variable_, rfl, hread, ?_, hgiven, hne, hkey⟩
        rw [List.append_assoc, List.singleton_append]
        exact hlast

theorem mem_dependencyEdges_iff :
    key ∈ dependencyEdges [] nodes ↔ DependsOnLastWriter nodes key := by
  have hnone (variable_ writer : List Char) :
      lastWriter [] variable_ = some writer ↔ LastWriter [] variable_ writer := by
    constructor
    · exact fun h => (nomatch h)
    · rintro ⟨earlier, node, later, h, -⟩
      exact absurd h.symm (by simp)
  rw [mem_dependencyEdges hnone]
  rfl

theorem DependsOnLastWriter.requested (h : DependsOnLastWriter nodes key) :
    Requested nodes exitId key := by
  obtain ⟨before, reader, after, variable_, hsplit, -, ⟨earlier, writer, later, hbefore, hid, -⟩,
    -, -, hkey⟩ :=
    id h
  refine ⟨⟨writer, by simp [hsplit, hbefore], hid, fun _ => .inr ?_⟩, .inl ?_, fun _ => h⟩
  · rw [hkey]
    rfl
  · rw [hkey]
    exact .node (by simp [hsplit])

theorem requestedEdges_requested (h : key ∈ requestedEdges nodes exitId) :
    Requested nodes exitId key := by
  unfold requestedEdges at h
  simp only [List.mem_append, or_assoc] at h
  rcases h with h | h | h | h | h | h | h
  · obtain ⟨handler, hmem, h⟩ := List.mem_filterMap.mp h
    exact handlerEdge_requested hmem h
  · obtain ⟨node, hmem, h⟩ := List.mem_filterMap.mp h
    obtain ⟨result, htransfer, h⟩ := Option.bind_eq_some_iff.mp h
    cases result with
    | error finding => exact nomatch h
    | ok found =>
      cases h
      exact transfer_requested hmem htransfer
  · obtain ⟨node, hmem, h⟩ := List.mem_filterMap.mp h
    exact loopFalseExit_requested hmem h
  · obtain ⟨node, hmem, h⟩ := List.mem_flatMap.mp h
    exact decisionEdges_requested hmem h
  · obtain ⟨node, hmem, h⟩ := List.mem_flatMap.mp h
    exact exceptionEdges_requested hmem h
  · obtain ⟨node, hmem, h⟩ := List.mem_filterMap.mp h
    exact callEdge_requested hmem h
  · exact (mem_dependencyEdges_iff.mp h).requested

end Lookups

end AtlasDb.Dialects
