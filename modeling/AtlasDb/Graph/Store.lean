import Mathlib.Data.Finset.Basic
import Mathlib.Data.List.Perm.Subperm

/-!
# The knowledge graph store

`graph/store.py: PersistentKnowledgeGraphStore`: the tables of nodes and edges, `ingest`, and
`neighborhood`. SQLite may answer a query with LIMIT by any rows that match, in any order, so a
neighbourhood is a relation between the tables and a result. Attributes are kept as the texts
stored.
-/

namespace AtlasDb.Graph

/-! ## Tables -/

/-- A row of `graph_nodes`. -/
structure NodeRow where
  tenantRef : String
  graphId : String
  graphDigest : String
  nodeId : String
  nodeType : String
  label : String
  authority : String
  status : String
  attributesJson : String
deriving DecidableEq

/-- A row of `graph_edges`. -/
structure EdgeRow where
  tenantRef : String
  graphId : String
  graphDigest : String
  edgeId : String
  sourceNode : String
  targetNode : String
  edgeType : String
  attributesJson : String
deriving DecidableEq

/-- The primary keys. -/
def NodeRow.key (row : NodeRow) : String × String × String × String :=
  (row.tenantRef, row.graphId, row.graphDigest, row.nodeId)

def EdgeRow.key (row : EdgeRow) : String × String × String × String :=
  (row.tenantRef, row.graphId, row.graphDigest, row.edgeId)

structure GraphStore where
  nodes : List NodeRow
  edges : List EdgeRow
  nodes_unique : (nodes.map NodeRow.key).Nodup
  edges_unique : (edges.map EdgeRow.key).Nodup

/-- `INSERT OR IGNORE` -/
def insertOrIgnore {α κ : Type} [DecidableEq κ] (key : α → κ) (rows : List α) (row : α) : List α :=
  if key row ∈ rows.map key then rows else rows ++ [row]

theorem insertOrIgnore_unique {α κ : Type} [DecidableEq κ] {key : α → κ} {rows : List α} {row : α}
    (h : (rows.map key).Nodup) : ((insertOrIgnore key rows row).map key).Nodup := by
  unfold insertOrIgnore
  split
  · exact h
  · next hnew =>
      rw [List.map_append, List.map_singleton]
      refine List.Nodup.append h (List.nodup_singleton _) ?_
      rw [List.disjoint_singleton]
      exact hnew

theorem foldl_insertOrIgnore_unique {α κ : Type} [DecidableEq κ] {key : α → κ} (news : List α)
    {rows : List α} (h : (rows.map key).Nodup) :
    ((news.foldl (insertOrIgnore key) rows).map key).Nodup := by
  induction news generalizing rows with
  | nil => exact h
  | cons row news ih => exact ih (insertOrIgnore_unique h)

/-! ## Ingestion -/

structure GraphNode where
  nodeId : String
  nodeType : String
  label : String
  authority : String := "TECHNICAL_EVIDENCE"
  status : String := "OBSERVED_OR_EXTRACTED"
  attributesJson : String := "\x7b\x7d"

structure GraphEdge where
  edgeId : String
  source : String
  target : String
  edgeType : String
  attributesJson : String := "\x7b\x7d"

structure ProcedureKnowledgeGraph where
  graphId : String
  nodes : List GraphNode
  edges : List GraphEdge
  contentDigest : String

def nodeRow (tenant : String) (graph : ProcedureKnowledgeGraph) (node : GraphNode) : NodeRow :=
  ⟨tenant, graph.graphId, graph.contentDigest, node.nodeId, node.nodeType, node.label,
    node.authority,
    node.status, node.attributesJson⟩

def edgeRow (tenant : String) (graph : ProcedureKnowledgeGraph) (edge : GraphEdge) : EdgeRow :=
  ⟨tenant, graph.graphId, graph.contentDigest, edge.edgeId, edge.source, edge.target, edge.edgeType,
    edge.attributesJson⟩

/-- `ingest`; `digestOf` is `canonical_digest` of the graph without its digest. -/
def ingest (digestOf : ProcedureKnowledgeGraph → String) (tenant : String) (store : GraphStore)
    (graph : ProcedureKnowledgeGraph) : Except String GraphStore :=
  if digestOf graph ≠ graph.contentDigest then .error "Procedure knowledge graph digest is invalid."
  else .ok
    { nodes := (graph.nodes.map (nodeRow tenant graph)).foldl
        (insertOrIgnore NodeRow.key) store.nodes
      edges :=
        (graph.edges.map (edgeRow tenant graph)).foldl (insertOrIgnore EdgeRow.key) store.edges
      nodes_unique := foldl_insertOrIgnore_unique _ store.nodes_unique
      edges_unique := foldl_insertOrIgnore_unique _ store.edges_unique }

/-! ## Neighbourhoods -/

/-- A node as it is returned: the row without its tenant. -/
structure NodeRecord where
  graphId : String
  graphDigest : String
  nodeId : String
  nodeType : String
  label : String
  authority : String
  status : String
  attributes : String
deriving DecidableEq

structure EdgeRecord where
  graphId : String
  graphDigest : String
  edgeId : String
  sourceNode : String
  targetNode : String
  edgeType : String
  attributes : String
deriving DecidableEq

def NodeRow.record (row : NodeRow) : NodeRecord :=
  ⟨row.graphId, row.graphDigest, row.nodeId, row.nodeType, row.label, row.authority, row.status,
    row.attributesJson⟩

def EdgeRow.record (row : EdgeRow) : EdgeRecord :=
  ⟨row.graphId, row.graphDigest, row.edgeId, row.sourceNode, row.targetNode, row.edgeType,
    row.attributesJson⟩

/-- `source_node IN (...) OR target_node IN (...)` -/
def EdgeRow.touches (ids : Finset String) (row : EdgeRow) : Bool :=
  row.sourceNode ∈ ids || row.targetNode ∈ ids

/-- The edges of the tenant that touch these nodes. -/
def GraphStore.matching (store : GraphStore) (tenant : String) (ids : Finset String) :
    List EdgeRow :=
  store.edges.filter fun row => row.tenantRef = tenant && row.touches ids

/-- The nodes of the tenant with these ids. -/
def GraphStore.nodesIn (store : GraphStore) (tenant : String) (ids : Finset String) :
    List NodeRow :=
  store.nodes.filter fun row => row.tenantRef = tenant && decide (row.nodeId ∈ ids)

/-- What a query with LIMIT may answer. -/
def Answers {α : Type} (rows matched : List α) (limit : Nat) : Prop :=
  rows.Subperm matched ∧ rows.length = min limit matched.length

/-- The variables of `neighborhood` between two rounds. -/
structure SearchState where
  frontier : Finset String
  visited : Finset String
  edges : List EdgeRecord

/-- A row is taken in. While a round lasts, `frontier` is `next_frontier`. -/
def SearchState.absorbRow (s : SearchState) (row : EdgeRow) : SearchState where
  frontier := s.frontier ∪ ({row.sourceNode, row.targetNode} \ s.visited)
  visited := s.visited ∪ {row.sourceNode, row.targetNode}
  edges := if row.record ∈ s.edges then s.edges else s.edges ++ [row.record]

/-- A round takes in the rows of its query. -/
def SearchState.absorb (s : SearchState) (rows : List EdgeRow) : SearchState :=
  rows.foldl SearchState.absorbRow { s with frontier := ∅ }

def SearchState.start (nodeId : String) : SearchState := ⟨{nodeId}, {nodeId}, []⟩

section

variable (store : GraphStore) (tenant : String) (limit : Int)

/-- One round. After a break nothing changes. -/
inductive Round : SearchState → SearchState → Prop where
  | stop {s : SearchState} (h : s.frontier = ∅ ∨ limit ≤ s.edges.length) : Round s s
  | query {s : SearchState} {rows : List EdgeRow} (hfrontier : s.frontier ≠ ∅)
      (hbudget : s.edges.length < limit)
      (hrows : Answers rows (store.matching tenant s.frontier) (limit - s.edges.length).toNat) :
      Round s (s.absorb rows)

inductive Rounds (s : SearchState) : Nat → SearchState → Prop where
  | zero : Rounds s 0 s
  | succ {n : Nat} {t u : SearchState} (h : Rounds s n t) (hround : Round store tenant limit t u) :
      Rounds s (n + 1) u

/-- What `neighborhood` returns. -/
structure Neighborhood where
  nodeId : String
  depth : Nat
  nodes : List NodeRecord
  edges : List EdgeRecord

/-- `neighborhood`; beyond depth 8 it raises an error. -/
inductive Returns (nodeId : String) (depth : Nat) : Neighborhood → Prop where
  | of {s : SearchState} {rows : List NodeRow} (hdepth : depth ≤ 8)
      (hrounds : Rounds store tenant limit (.start nodeId) depth s)
      (hrows : rows.Perm (store.nodesIn tenant s.visited)) :
      Returns nodeId depth ⟨nodeId, depth, rows.map NodeRow.record, s.edges⟩

end

end AtlasDb.Graph
