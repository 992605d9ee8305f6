import AtlasDb.Dialects.RefinedFlow

/-!
# Data dependencies

`refineControlFlow` reports, for each variable a node reads, the last node in front of it in the
source that writes the variable (`dependency_iff_last_writer`). Where the writer stands in another
branch or further down in a loop, a path from it to the reader has no edge.
-/

namespace AtlasDb.Dialects

/-! ## What the passes report -/

section Dependencies

variable (nodes : List SemanticNode) (edges : List SemanticEdge) (findings : List SemanticFinding)
  (entryId exitId : List Char)

/-- A data dependency comes from the last writer in the order of the source, or from the edges that
were passed in. -/
theorem dependency_iff_last_writer (writer reader variable_ : List Char) :
    (∃ edge ∈ (refineControlFlow nodes edges findings entryId exitId).edges,
      edge.key = ⟨writer, reader, .dataDependency, some variable_⟩) ↔
    (∃ edge ∈ edges, keepsEdge (sourceNodes nodes) edge = true ∧
      edge.key = ⟨writer, reader, .dataDependency, some variable_⟩) ∨
    DependsOnLastWriter (sourceNodes nodes) ⟨writer, reader, .dataDependency, some variable_⟩ := by
  rw [← List.mem_map, refineControlFlow, mem_refined_keys, List.mem_map]
  simp only [List.mem_filter, and_assoc]
  apply or_congr_right
  constructor
  · rintro ⟨hrequested, -⟩
    exact (requestedEdges_requested hrequested).dependency rfl
  · intro h
    refine ⟨?_, .inl ?_⟩
    · unfold requestedEdges
      exact List.mem_append_right _ (mem_dependencyEdges_iff.mpr h)
    · -- a node does not depend on itself
      obtain ⟨before, found, after, name, -, -, -, -, hne, hkey⟩ := h
      obtain rfl : reader = found.nodeId := congrArg EdgeKey.targetRef hkey
      exact hne

end Dependencies

/-! ## What the flow allows -/

/-- Control can go from the one node to the other while no node in between writes the variable. -/
inductive ClearPath (out : RefinedFlow) (variable_ : List Char) : List Char → List Char → Prop where
  | step {a b : List Char} (h : ControlStep out.edges a b) : ClearPath out variable_ a b
  | cons {a b c : List Char} (h : ControlStep out.edges a b)
      (hclear : ∀ node ∈ out.nodes, node.nodeId = b → variable_ ∉ node.variableWrites)
      (rest : ClearPath out variable_ b c) : ClearPath out variable_ a c

/-- Every value that can get from a writer to a reader has its edge. -/
def DefUseComplete (out : RefinedFlow) : Prop :=
  ∀ writer ∈ out.nodes, ∀ reader ∈ out.nodes, ∀ variable_ ∈ writer.variableWrites,
    variable_ ∈ reader.variableReads → ClearPath out variable_ writer.nodeId reader.nodeId →
      ∃ edge ∈ out.edges, edge.key = ⟨writer.nodeId, reader.nodeId, .dataDependency, some variable_⟩

/-- A statement of the example below. -/
def branchStatement (ref : String) (kind : SemanticNodeKind) (text : String) (span : Nat × Nat)
    (parent : Option String) (attributes : List (String × AttributeValue)) : SemanticNode where
  nodeId := ref.toList
  kind := kind
  text := text.toList
  sourceSpan := ⟨span.1, span.2⟩
  parentRef := parent.map String.toList
  attributes := attributes

/-- The arm that is taken when the condition holds. -/
def firstWrite : SemanticNode where
  nodeId := "node-0003".toList
  kind := .assignment
  text := "SET A = 1;".toList
  sourceSpan := ⟨71, 81⟩
  parentRef := some "node-0002".toList
  targetName := some "A".toList
  variableWrites := ["A".toList]
  modality := .conditional

def secondWrite : SemanticNode :=
  { firstWrite with
    nodeId := "node-0005".toList
    text := "SET A = 2;".toList
    sourceSpan := ⟨87, 97⟩
    parentRef := some "node-0004".toList }

def readBehind : SemanticNode where
  nodeId := "node-0007".toList
  kind := .assignment
  text := "SET B = A;".toList
  sourceSpan := ⟨106, 116⟩
  parentRef := some "node-0001".toList
  targetName := some "B".toList
  variableReads := ["A".toList]
  variableWrites := ["B".toList]

/-- `BEGIN IF X > 0 THEN SET A = 1; ELSE SET A = 2; END IF; SET B = A; END` -/
def branchNodes : List SemanticNode :=
  [branchStatement "node-entry" .entry "ENTRY P" (0, 0) none [],
    branchStatement "node-0001" .block "BEGIN" (51, 56) none [("boundary", .text "BEGIN".toList)],
    { branchStatement "node-0002" .condition "IF X > 0 THEN" (57, 70) (some "node-0001")
        [("branch_kind", .text "IF".toList)] with
      conditionText := some "X > 0".toList
      variableReads := ["X".toList] },
    firstWrite,
    { branchStatement "node-0004" .condition "ELSE" (82, 86) (some "node-0002")
        [("branch_kind", .text "ELSE".toList)] with
      conditionText := some "ELSE".toList
      modality := .conditional },
    secondWrite,
    { branchStatement "node-0006" .block "END IF;" (98, 105) (some "node-0004")
        [("boundary", .text "END IF".toList)] with
      modality := .conditional },
    readBehind,
    branchStatement "node-0008" .block "END" (117, 120) (some "node-0001")
      [("boundary", .text "END".toList)],
    branchStatement "node-exit" .exit "EXIT P" (120, 120) none []]

def branchEdges : List SemanticEdge :=
  [⟨"edge-0001".toList, "node-entry".toList, "node-0001".toList, .next, none⟩,
    ⟨"edge-0002".toList, "node-0001".toList, "node-0002".toList, .next, none⟩,
    ⟨"edge-0003".toList, "node-0002".toList, "node-0003".toList, .true_, some "X > 0".toList⟩,
    ⟨"edge-0004".toList, "node-0002".toList, "node-0004".toList, .false_, some "X > 0".toList⟩,
    ⟨"edge-0005".toList, "node-0004".toList, "node-0005".toList, .next, some "ELSE".toList⟩,
    ⟨"edge-0006".toList, "node-0005".toList, "node-0006".toList, .next, none⟩,
    ⟨"edge-0007".toList, "node-0006".toList, "node-0007".toList, .next, none⟩,
    ⟨"edge-0008".toList, "node-0007".toList, "node-0008".toList, .next, none⟩,
    ⟨"edge-0009".toList, "node-0008".toList, "node-exit".toList, .next, none⟩]

def branchFlow : RefinedFlow :=
  refineControlFlow branchNodes branchEdges [] "node-entry".toList "node-exit".toList

/-- The first arm goes straight to the reader, and only the second arm gets the edge. -/
theorem first_arm_lost : ¬DefUseComplete branchFlow := by
  intro h
  have hwriter : firstWrite ∈ branchFlow.nodes := by decide +kernel
  have hreader : readBehind ∈ branchFlow.nodes := by decide +kernel
  have hjoin : ControlStep branchFlow.edges firstWrite.nodeId readBehind.nodeId := by decide +kernel
  have hlost : ¬∃ edge ∈ branchFlow.edges, edge.key =
      ⟨firstWrite.nodeId, readBehind.nodeId, .dataDependency, some "A".toList⟩ := by
    decide +kernel
  exact hlost
    (h firstWrite hwriter readBehind hreader "A".toList List.mem_cons_self List.mem_cons_self
    (.step hjoin))

end AtlasDb.Dialects
