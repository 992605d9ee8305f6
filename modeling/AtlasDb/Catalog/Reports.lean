import AtlasDb.Catalog.Sources
import AtlasDb.Lib.Assoc

/-!
# Lineage reports

The whole report of `catalog/lineage.py: resolve`. The queue holds every path up to the depth limit
that does not close a cycle; since it is taken first in, first out, a relation is met first at its
least distance from a root. Nodes and base relations are exact in every catalog. An edge is kept
under a digest of its texts joined by bars, so that two dependencies whose joined texts agree share
one entry, and a relation of unknown kind ends a path without a word.
-/

namespace AtlasDb.Catalog

open Core Lib

/-! ## The report -/

/-- `LineageNode`, by the relation it stands for. -/
structure LineageNode where
  relationRef : Chars
  relationKind : RelationKind
  depth : Nat
deriving DecidableEq

structure LineageEdge where
  sourceRef : Chars
  targetRef : Chars
  edgeKind : Chars
deriving DecidableEq

/-- The text an edge id is the digest of. -/
def LineageEdge.idText (edge : LineageEdge) : Chars :=
  edge.sourceRef ++ '|' :: (edge.edgeKind ++ '|' :: edge.targetRef)

/-- The dictionaries and sets `resolve` fills. -/
structure RelationLineageReport where
  nodes : List (Chars × LineageNode)
  edges : List (Chars × LineageEdge)
  sets : LineageState
  cycles : Finset (List Chars)
  maxDepthReached : Bool

/-- `edge_kind` when the targets are followed. -/
def edgeKindOf (relation : CatalogRelation) : Chars :=
  match relation.relationKind with
  | .synonym => "SYNONYM_OF".toList
  | .view | .materializedQueryTable =>
    if isMissing relation.viewDefinitionText then "DEPENDS_ON".toList else "DERIVED_FROM".toList
  | _ => "DEPENDS_ON".toList

/-- The kind shown for a reference; what the catalog does not know is of unknown kind. -/
def kindOf (snapshot : CatalogSnapshot) (ref : Chars) : RelationKind :=
  match snapshot.relation ref with
  | some relation => relation.relationKind
  | none => .unknown

/-- The node written in the turn of an item. -/
def nodeOf (snapshot : CatalogSnapshot) (item : Pending) : LineageNode :=
  ⟨item.ref, kindOf snapshot item.ref, item.depth⟩

/-- The edges written in the turn of an item. -/
def nextEdges (snapshot : CatalogSnapshot) (maxDepth : Nat) (item : Pending) : List LineageEdge :=
  match snapshot.relation item.ref with
  | none => []
  | some relation =>
    if item.ref ∈ item.lineage ∨ maxDepth ≤ item.depth then []
    else (targetsOf relation).map fun target => ⟨item.ref, target, edgeKindOf relation⟩

/-- `lineage[lineage.index(ref):] + (ref,)` -/
def cycleOf (item : Pending) : List Chars :=
  item.lineage.dropWhile (· ≠ item.ref) ++ [item.ref]

/-- One turn of the loop. -/
def reportTurn (snapshot : CatalogSnapshot) (maxDepth : Nat) (report : RelationLineageReport)
    (item : Pending) : RelationLineageReport where
  nodes := setDefault report.nodes item.ref (nodeOf snapshot item)
  edges := (nextEdges snapshot maxDepth item).foldl (fun es edge => setEntry es edge.idText edge)
    report.edges
  sets := record snapshot maxDepth report.sets item
  cycles :=
    if (snapshot.relation item.ref).isSome ∧ item.ref ∈ item.lineage then
      insert (cycleOf item) report.cycles
    else report.cycles
  maxDepthReached :=
    report.maxDepthReached || ((snapshot.relation item.ref).isSome &&
      (decide (item.ref ∉ item.lineage) && decide (maxDepth ≤ item.depth)))

def rootPending (rootRelationRefs : List Chars) : List Pending :=
  (rootRefs rootRelationRefs).map fun root => ⟨root, 0, []⟩

def noReport : RelationLineageReport := ⟨[], [], ⟨∅, ∅⟩, ∅, false⟩

/-- The loop of `resolve`, for a number of turns. -/
def resolveTurns (snapshot : CatalogSnapshot) (maxDepth : Nat) (rootRelationRefs : List Chars)
    (fuel : Nat) : RelationLineageReport :=
  drain (nextPending snapshot maxDepth) (reportTurn snapshot maxDepth) fuel
    (rootPending rootRelationRefs) noReport

/-- Enough turns for the queue to run empty. -/
def turnBound (snapshot : CatalogSnapshot) (maxDepth : Nat) (rootRelationRefs : List Chars) : Nat :=
  (rootPending rootRelationRefs).length * pendingWeight snapshot maxDepth 0

/-- `resolve`, with the whole report. -/
def resolveReport (snapshot : CatalogSnapshot) (maxDepth : Nat) (rootRelationRefs : List Chars) :
    RelationLineageReport :=
  resolveTurns snapshot maxDepth rootRelationRefs (turnBound snapshot maxDepth rootRelationRefs)

section Report

variable {snapshot : CatalogSnapshot} {maxDepth : Nat} {roots : List Chars}

/-- The items in the order of their turns. -/
def itemTurns (snapshot : CatalogSnapshot) (maxDepth : Nat) (roots : List Chars) : List Pending :=
  turns (nextPending snapshot maxDepth) (turnBound snapshot maxDepth roots) (rootPending roots)

theorem resolveReport_eq_foldl : resolveReport snapshot maxDepth roots =
    (itemTurns snapshot maxDepth roots).foldl (reportTurn snapshot maxDepth) noReport :=
  drain_eq_foldl

theorem rootPending_weight :
    ((rootPending roots).map fun p => pendingWeight snapshot maxDepth p.depth).sum ≤
      turnBound snapshot maxDepth roots := by
  unfold rootPending turnBound
  rw [List.map_map]
  have hconst := List.map_const' (l := rootRefs roots) (b := pendingWeight snapshot maxDepth 0)
  show ((rootRefs roots).map fun _ => pendingWeight snapshot maxDepth 0).sum ≤ _
  rw [hconst, List.sum_replicate_nat, rootPending, List.length_map]

theorem resolveTurns_fuel {fuel : Nat} (hfuel : turnBound snapshot maxDepth roots ≤ fuel) :
    resolveTurns snapshot maxDepth roots fuel = resolveReport snapshot maxDepth roots := by
  obtain ⟨extra, rfl⟩ := Nat.exists_eq_add_of_le hfuel
  rw [resolveReport, resolveTurns, resolveTurns, drain_eq_foldl, drain_eq_foldl,
    turns_fuel nextPending_weight extra rootPending_weight]

/-- An item that can be reached from a root. -/
def Queued (snapshot : CatalogSnapshot) (maxDepth : Nat) (roots : List Chars) (item : Pending) :
    Prop :=
  ∃ root ∈ rootRefs roots,
    Relation.ReflTransGen (fun a b => b ∈ nextPending snapshot maxDepth a) ⟨root, 0, []⟩ item

variable {ref : Chars} {item : Pending} {edge : LineageEdge}

theorem mem_itemTurns :
    item ∈ itemTurns snapshot maxDepth roots ↔ Queued snapshot maxDepth roots item := by
  rw [itemTurns, mem_turns_iff nextPending_weight rootPending_weight, Queued]
  constructor
  · rintro ⟨y, hy, hpath⟩
    obtain ⟨root, hroot, rfl⟩ := List.mem_map.mp hy
    exact ⟨root, hroot, hpath⟩
  · rintro ⟨root, hroot, hpath⟩
    exact ⟨_, List.mem_map.mpr ⟨root, hroot, rfl⟩, hpath⟩

theorem mem_nextPending {item item' : Pending} :
    item' ∈ nextPending snapshot maxDepth item ↔
      ∃ relation, snapshot.relation item.ref = some relation ∧ item.ref ∉ item.lineage ∧
        item.depth < maxDepth ∧ item'.ref ∈ targetsOf relation ∧
        item'.depth = item.depth + 1 ∧ item'.lineage = item.lineage ++ [item.ref] := by
  unfold nextPending
  split
  · next hnone => simp [hnone]
  · next relation hrelation =>
      split
      · next hstop =>
          refine iff_of_false nofun ?_
          rintro ⟨-, -, hlineage, hdepth, -⟩
          rcases hstop with h | h
          · exact hlineage h
          · omega
      · next hgoes =>
          obtain ⟨hlineage, hdepth⟩ := not_or.mp hgoes
          rw [List.mem_map]
          constructor
          · rintro ⟨target, htarget, rfl⟩
            exact ⟨relation, hrelation, hlineage, Nat.lt_of_not_le hdepth, htarget, rfl, rfl⟩
          · rintro ⟨relation', hrelation', -, -, htarget, hdepth', hlineage'⟩
            obtain rfl : relation = relation' := Option.some.inj (hrelation.symm.trans hrelation')
            refine ⟨item'.ref, htarget, ?_⟩
            rw [← hdepth', ← hlineage']

theorem itemTurns_sorted :
    (itemTurns snapshot maxDepth roots).Pairwise fun x y => x.depth ≤ y.depth := by
  have hzero : ∀ x ∈ rootPending roots, x.depth = 0 := by
    intro x hx
    obtain ⟨root, -, rfl⟩ := List.mem_map.mp hx
    rfl
  refine @turns_sorted _ _ Pending.depth ?_ _ _ ?_ ?_
  · intro x y hy
    obtain ⟨-, -, -, -, -, hdepth, -⟩ := mem_nextPending.mp hy
    exact hdepth
  · refine List.pairwise_of_forall_mem_list fun x hx y hy => ?_
    rw [hzero x hx]
    exact Nat.zero_le _
  · intro x hx y hy
    rw [hzero y hy]
    exact Nat.zero_le _

/-! ## Distances -/

/-- `b` is a target of `a`. -/
def Dependency (snapshot : CatalogSnapshot) (a b : Chars) : Prop :=
  ∃ relation, snapshot.relation a = some relation ∧ b ∈ targetsOf relation

/-- The relation is reached from a root in this many steps. -/
inductive Reaches (snapshot : CatalogSnapshot) (roots : List Chars) : Nat → Chars → Prop where
  | root {ref : Chars} (h : ref ∈ rootRefs roots) : Reaches snapshot roots 0 ref
  | step {n : Nat} {a b : Chars} (h : Reaches snapshot roots n a) (hdep : Dependency snapshot a b) :
      Reaches snapshot roots (n + 1) b

/-- The least number of steps in which the relation is reached from a root. -/
def Distance (snapshot : CatalogSnapshot) (roots : List Chars) (n : Nat) (ref : Chars) : Prop :=
  Reaches snapshot roots n ref ∧ ∀ k < n, ¬ Reaches snapshot roots k ref

/-- The relation lies within the limit and is followed. -/
def Inside (snapshot : CatalogSnapshot) (maxDepth : Nat) (roots : List Chars) (ref : Chars) :
    Prop :=
  ∃ n < maxDepth, Reaches snapshot roots n ref

theorem Reaches.exists_distance {n : Nat} (h : Reaches snapshot roots n ref) :
    ∃ k ≤ n, Distance snapshot roots k ref := by
  induction n using Nat.strongRecOn with
  | _ n ih =>
    by_cases hleast : ∀ k < n, ¬ Reaches snapshot roots k ref
    · exact ⟨n, Nat.le_refl n, h, hleast⟩
    · push Not at hleast
      obtain ⟨k, hk, hreaches⟩ := hleast
      obtain ⟨j, hj, hdistance⟩ := ih k hk hreaches
      exact ⟨j, by omega, hdistance⟩

theorem Reaches.exists_at {n m : Nat} (h : Reaches snapshot roots n ref) (hm : m ≤ n) :
    ∃ via, Reaches snapshot roots m via := by
  induction h with
  | root h =>
    obtain rfl : m = 0 := by omega
    exact ⟨_, .root h⟩
  | @step n a b h hdep ih =>
    by_cases heq : m = n + 1
    · exact ⟨b, heq ▸ .step h hdep⟩
    · exact ih (by omega)

/-- What is known of a queued item: its depth is the length of a walk, and its lineage lies on
it. -/
structure Walked (snapshot : CatalogSnapshot) (maxDepth : Nat) (roots : List Chars)
    (item : Pending) :
    Prop where
  reaches : Reaches snapshot roots item.depth item.ref
  bounded : item.depth ≤ maxDepth
  earlier : ∀ c ∈ item.lineage, ∃ k < item.depth, Reaches snapshot roots k c
  leads : ∀ c ∈ item.lineage, Relation.TransGen (Dependency snapshot) c item.ref

theorem Queued.walked (h : Queued snapshot maxDepth roots item) :
    Walked snapshot maxDepth roots item := by
  obtain ⟨root, hroot, hpath⟩ := h
  induction hpath with
  | refl => exact ⟨.root hroot, Nat.zero_le _, nofun, nofun⟩
  | @tail a b _ hstep ih =>
    obtain ⟨relation, hrelation, -, hdepth, htarget, hdepth', hlineage⟩ := mem_nextPending.mp hstep
    have hdep : Dependency snapshot a.ref b.ref := ⟨relation, hrelation, htarget⟩
    refine ⟨?_, ?_, ?_, ?_⟩
    · rw [hdepth']
      exact .step ih.reaches hdep
    · rw [hdepth']
      exact hdepth
    · intro c hc
      rw [hlineage] at hc
      rw [hdepth']
      rcases List.mem_append.mp hc with hc | hc
      · obtain ⟨k, hk, hreaches⟩ := ih.earlier c hc
        exact ⟨k, by omega, hreaches⟩
      · obtain rfl := List.mem_singleton.mp hc
        exact ⟨a.depth, by omega, ih.reaches⟩
    · intro c hc
      rw [hlineage] at hc
      rcases List.mem_append.mp hc with hc | hc
      · exact (ih.leads c hc).tail hdep
      · obtain rfl := List.mem_singleton.mp hc
        exact .single hdep

theorem Queued.step (h : Queued snapshot maxDepth roots item) {b : Chars}
    (hlineage : item.ref ∉ item.lineage) (hdepth : item.depth < maxDepth)
    (hdep : Dependency snapshot item.ref b) :
    Queued snapshot maxDepth roots ⟨b, item.depth + 1, item.lineage ++ [item.ref]⟩ := by
  obtain ⟨root, hroot, hpath⟩ := h
  obtain ⟨relation, hrelation, htarget⟩ := hdep
  refine ⟨root, hroot, hpath.tail (mem_nextPending.mpr ?_)⟩
  exact ⟨relation, hrelation, hlineage, hdepth, htarget, rfl, rfl⟩

theorem Distance.not_mem_lineage (h : Queued snapshot maxDepth roots item)
    (hdistance : Distance snapshot roots item.depth item.ref) : item.ref ∉ item.lineage := by
  intro hmem
  obtain ⟨k, hk, hreaches⟩ := h.walked.earlier _ hmem
  exact hdistance.2 k hk hreaches

theorem Distance.queued {n : Nat} (h : Distance snapshot roots n ref) (hn : n ≤ maxDepth) :
    ∃ item, Queued snapshot maxDepth roots item ∧ item.ref = ref ∧ item.depth = n := by
  obtain ⟨hreaches, hleast⟩ := h
  induction hreaches with
  | @root ref hroot => exact ⟨⟨ref, 0, []⟩, ⟨ref, hroot, .refl⟩, rfl, rfl⟩
  | @step n a b hreaches hdep ih =>
    have hdistance : Distance snapshot roots n a :=
      ⟨hreaches, fun k hk hk' => hleast (k + 1) (by omega) (.step hk' hdep)⟩
    obtain ⟨item, hitem, rfl, rfl⟩ := ih (by omega) hdistance.2
    exact ⟨_, hitem.step (hdistance.not_mem_lineage hitem) (by omega) hdep, rfl, rfl⟩

theorem Inside.queued (h : Inside snapshot maxDepth roots ref) :
    ∃ item, Queued snapshot maxDepth roots item ∧ item.ref = ref ∧ item.depth < maxDepth ∧
      item.ref ∉ item.lineage := by
  obtain ⟨n, hn, hreaches⟩ := h
  obtain ⟨k, hk, hdistance⟩ := hreaches.exists_distance
  obtain ⟨item, hitem, rfl, rfl⟩ := hdistance.queued (Nat.le_of_lt (Nat.lt_of_le_of_lt hk hn))
  exact ⟨item, hitem, rfl, by omega, hdistance.not_mem_lineage hitem⟩

theorem Queued.inside (h : Queued snapshot maxDepth roots item)
    (hdepth : item.depth < maxDepth) : Inside snapshot maxDepth roots item.ref :=
  ⟨item.depth, hdepth, h.walked.reaches⟩

/-! ## Nodes -/

/-- The node a reference has in the report. -/
def NodeOf (snapshot : CatalogSnapshot) (maxDepth : Nat) (roots : List Chars) (node : LineageNode) :
    Prop :=
  node.depth ≤ maxDepth ∧ Distance snapshot roots node.depth node.relationRef ∧
    node.relationKind = kindOf snapshot node.relationRef

theorem nodes_eq_foldl (items : List Pending) (report : RelationLineageReport) :
    (items.foldl (reportTurn snapshot maxDepth) report).nodes =
      items.foldl (fun es item => setDefault es item.ref (nodeOf snapshot item)) report.nodes := by
  induction items generalizing report with
  | nil => rfl
  | cons item items ih => exact ih _

theorem nodes_nodup : ((resolveReport snapshot maxDepth roots).nodes.map Prod.fst).Nodup := by
  rw [resolveReport_eq_foldl, nodes_eq_foldl]
  exact nodup_foldl_setDefault Pending.ref _ _ List.nodup_nil

theorem first_turn_distance
    (h : (itemTurns snapshot maxDepth roots).find? (fun item => item.ref = ref) = some item) :
    Distance snapshot roots item.depth item.ref := by
  obtain ⟨href, before, after, hturns, hbefore⟩ := List.find?_eq_some_iff_append.mp h
  have hqueued : Queued snapshot maxDepth roots item := by
    apply mem_itemTurns.mp
    rw [hturns]
    simp
  refine ⟨hqueued.walked.reaches, fun k hk hreaches => ?_⟩
  obtain ⟨j, hj, hdistance⟩ := hreaches.exists_distance
  have hbounded := hqueued.walked.bounded
  have hnear : j ≤ maxDepth := by omega
  obtain ⟨earlier, hearlier, hsame, hdepth⟩ := hdistance.queued hnear
  -- an earlier turn of the relation would have been found
  have hmem := mem_itemTurns.mpr hearlier
  rw [hturns] at hmem
  rcases List.mem_append.mp hmem with hmem | hmem
  · have hother := hbefore earlier hmem
    rw [hsame] at hother
    rw [decide_eq_true_iff] at href
    simp [href] at hother
  · have hsorted := @itemTurns_sorted snapshot maxDepth roots
    rw [hturns] at hsorted
    have htail := (List.pairwise_append.mp hsorted).2.1
    rcases List.mem_cons.mp hmem with rfl | hmem
    · omega
    · have hle := (List.pairwise_cons.mp htail).1 earlier hmem
      omega

theorem mem_nodes_entry {node : LineageNode} :
    (ref, node) ∈ (resolveReport snapshot maxDepth roots).nodes ↔
      node.relationRef = ref ∧ NodeOf snapshot maxDepth roots node := by
  rw [resolveReport_eq_foldl, nodes_eq_foldl]
  refine (mem_foldl_setDefault Pending.ref (nodeOf snapshot)).trans ?_
  constructor
  · rintro ⟨item, hfind, rfl⟩
    have href : item.ref = ref := by simpa using List.find?_some hfind
    have hqueued := mem_itemTurns.mp (List.mem_of_find?_eq_some hfind)
    exact ⟨href, hqueued.walked.bounded, first_turn_distance hfind, rfl⟩
  · rintro ⟨rfl, hdepth, hdistance, hkind⟩
    obtain ⟨item, hitem, href, -⟩ := hdistance.queued hdepth
    have hsome : ((itemTurns snapshot maxDepth roots).find?
        fun item => item.ref = node.relationRef).isSome := by
      rw [List.find?_isSome]
      exact ⟨item, mem_itemTurns.mpr hitem, by simpa using href⟩
    obtain ⟨first, hfirst⟩ := Option.isSome_iff_exists.mp hsome
    have hfirstRef : first.ref = node.relationRef := by simpa using List.find?_some hfirst
    have hfirstDistance := first_turn_distance hfirst
    rw [hfirstRef] at hfirstDistance
    -- the least distance is one number
    have hequal : first.depth = node.depth := by
      rcases Nat.lt_trichotomy first.depth node.depth with hlt | heq | hgt
      · exact absurd hfirstDistance.1 (hdistance.2 _ hlt)
      · exact heq
      · exact absurd hdistance.1 (hfirstDistance.2 _ hgt)
    refine ⟨first, hfirst, ?_⟩
    rw [nodeOf, hfirstRef, hequal, ← hkind]

theorem mem_nodes {node : LineageNode} :
    node ∈ (resolveReport snapshot maxDepth roots).nodes.map Prod.snd ↔
      NodeOf snapshot maxDepth roots node := by
  rw [List.mem_map]
  constructor
  · rintro ⟨⟨ref, node⟩, hmem, rfl⟩
    exact (mem_nodes_entry.mp hmem).2
  · intro h
    exact ⟨_, mem_nodes_entry.mpr ⟨rfl, h⟩, rfl⟩

/-! ## Base relations and boundaries -/

/-- A relation with rows of its own. -/
def TableLike (snapshot : CatalogSnapshot) (ref : Chars) : Prop :=
  ∃ relation, snapshot.relation ref = some relation ∧ relation.relationKind.isBase = true

/-- A relation that is reported as a boundary when its turn comes within the limit. -/
def Bounded (snapshot : CatalogSnapshot) (ref : Chars) : Prop :=
  ∀ relation, snapshot.relation ref = some relation →
    match relation.relationKind with
    | .view | .materializedQueryTable => isMissing relation.viewDefinitionText = true
    | .nickname => isMissing relation.remoteSourceRef = true
    | .tableFunction => True
    | _ => False

/-- The turn of an item reports a boundary. -/
def Reports (snapshot : CatalogSnapshot) (maxDepth : Nat) (item : Pending) : Prop :=
  Bounded snapshot item.ref ∨ item.ref ∈ item.lineage ∨ maxDepth ≤ item.depth

theorem mem_base_record {s : LineageState} :
    ref ∈ (record snapshot maxDepth s item).base ↔ ref ∈ s.base ∨
      (item.ref = ref ∧ TableLike snapshot item.ref ∧ item.ref ∉ item.lineage ∧
        item.depth < maxDepth) := by
  have hstays (P : Prop) (hnot : ¬ (TableLike snapshot item.ref ∧ item.ref ∉ item.lineage ∧
      item.depth < maxDepth)) : (P ↔ P ∨ (item.ref = ref ∧ TableLike snapshot item.ref ∧
        item.ref ∉ item.lineage ∧ item.depth < maxDepth)) := by
    constructor
    · exact .inl
    · rintro (h | ⟨-, h⟩)
      · exact h
      · exact absurd h hnot
  unfold record
  simp only
  split
  · next hnone =>
      refine hstays _ ?_
      rintro ⟨⟨relation, hrelation, -⟩, -⟩
      rw [hnone] at hrelation
      cases hrelation
  · next relation hrelation =>
      split
      · next hlineage => exact hstays _ fun h => h.2.1 hlineage
      · next hlineage =>
          split
          · next hdepth => exact hstays _ fun h => by omega
          · next hdepth =>
              have hgoes (hbase : relation.relationKind.isBase = true) :
                  ref ∈ insert item.ref s.base ↔ ref ∈ s.base ∨ (item.ref = ref ∧
                    TableLike snapshot item.ref ∧ item.ref ∉ item.lineage ∧
                      item.depth < maxDepth) := by
                rw [Finset.mem_insert, or_comm]
                refine or_congr_right
                  ⟨fun h => ⟨h.symm, ⟨relation, hrelation, hbase⟩, hlineage, ?_⟩,
                  fun h => h.1.symm⟩
                omega
              have hother (P : Prop) (hbase : relation.relationKind.isBase = false) :=
                hstays P (by
                  rintro ⟨⟨relation', hrelation', hbase'⟩, -⟩
                  obtain rfl := Option.some.inj (hrelation.symm.trans hrelation')
                  rw [hbase] at hbase'
                  cases hbase')
              cases hkind : relation.relationKind with
              | view =>
                simp only
                split
                · exact hother _ (by rw [hkind]; rfl)
                · exact hother _ (by rw [hkind]; rfl)
              | materializedQueryTable =>
                simp only
                split
                · exact hother _ (by rw [hkind]; rfl)
                · exact hother _ (by rw [hkind]; rfl)
              | table => exact hgoes (by rw [hkind]; rfl)
              | temporaryTable => exact hgoes (by rw [hkind]; rfl)
              | nickname => exact hgoes (by rw [hkind]; rfl)
              | tableFunction => exact hother _ (by rw [hkind]; rfl)
              | synonym => exact hother _ (by rw [hkind]; rfl)
              | unknown => exact hother _ (by rw [hkind]; rfl)

/-- When a turn leaves something unresolved. -/
theorem unresolved_record {s : LineageState} :
    (record snapshot maxDepth s item).unresolved.Nonempty ↔
      s.unresolved.Nonempty ∨ Reports snapshot maxDepth item := by
  have hreported (b : Boundary) (h : Reports snapshot maxDepth item) :
      (insert b s.unresolved).Nonempty ↔ s.unresolved.Nonempty ∨ Reports snapshot maxDepth item :=
    iff_of_true (Finset.insert_nonempty _ _) (.inr h)
  unfold record
  simp only
  split
  · next hnone =>
      refine hreported _ (.inl fun relation hrelation => ?_)
      rw [hnone] at hrelation
      cases hrelation
  · next relation hrelation =>
      split
      · next hlineage => exact hreported _ (.inr (.inl hlineage))
      · next hlineage =>
          split
          · next hdepth => exact hreported _ (.inr (.inr hdepth))
          · next hdepth =>
              -- the turn goes on, and what it reports depends on the relation alone
              have hkinds : Reports snapshot maxDepth item ↔ Bounded snapshot item.ref :=
                ⟨fun h => h.resolve_right (not_or.mpr ⟨hlineage, hdepth⟩), .inl⟩
              have hself : Bounded snapshot item.ref ↔
                  (match relation.relationKind with
                  | .view | .materializedQueryTable => isMissing relation.viewDefinitionText = true
                  | .nickname => isMissing relation.remoteSourceRef = true
                  | .tableFunction => True
                  | _ => False) := by
                constructor
                · exact fun h => h relation hrelation
                · intro h relation' hrelation'
                  obtain rfl := Option.some.inj (hrelation.symm.trans hrelation')
                  exact h
              rw [hkinds, hself]
              cases hkind : relation.relationKind with
              | view =>
                simp only
                split
                · next h => exact iff_of_true (Finset.insert_nonempty _ _) (.inr h)
                · next h => exact (or_iff_left h).symm
              | materializedQueryTable =>
                simp only
                split
                · next h => exact iff_of_true (Finset.insert_nonempty _ _) (.inr h)
                · next h => exact (or_iff_left h).symm
              | nickname =>
                simp only
                split
                · next h => exact iff_of_true (Finset.insert_nonempty _ _) (.inr h)
                · next h => exact (or_iff_left h).symm
              | tableFunction => exact iff_of_true (Finset.insert_nonempty _ _) (.inr trivial)
              | table => exact (or_iff_left id).symm
              | temporaryTable => exact (or_iff_left id).symm
              | synonym => exact (or_iff_left id).symm
              | unknown => exact (or_iff_left id).symm

theorem mem_base_foldl {items : List Pending} {report : RelationLineageReport} :
    ref ∈ (items.foldl (reportTurn snapshot maxDepth) report).sets.base ↔ ref ∈ report.sets.base ∨
      ∃ item ∈ items, item.ref = ref ∧ TableLike snapshot item.ref ∧ item.ref ∉ item.lineage ∧
        item.depth < maxDepth := by
  induction items generalizing report with
  | nil => simp
  | cons item items ih =>
    rw [List.foldl_cons, ih, List.exists_mem_cons_iff, ← or_assoc]
    exact or_congr_left mem_base_record

theorem mem_base :
    ref ∈ (resolveReport snapshot maxDepth roots).sets.base ↔
      TableLike snapshot ref ∧ Inside snapshot maxDepth roots ref := by
  rw [resolveReport_eq_foldl, mem_base_foldl]
  constructor
  · rintro (h | ⟨item, hitem, rfl, htable, -, hdepth⟩)
    · cases h
    · exact ⟨htable, (mem_itemTurns.mp hitem).inside hdepth⟩
  · rintro ⟨htable, hinside⟩
    obtain ⟨item, hitem, rfl, hdepth, hlineage⟩ := hinside.queued
    exact .inr ⟨item, mem_itemTurns.mpr hitem, rfl, htable, hlineage, hdepth⟩

/-- The report says that something was left out. -/
def Reported (report : RelationLineageReport) : Prop :=
  report.maxDepthReached = true ∨ report.sets.unresolved.Nonempty

theorem reported_foldl {items : List Pending} {report : RelationLineageReport} :
    Reported (items.foldl (reportTurn snapshot maxDepth) report) ↔
      Reported report ∨ ∃ item ∈ items, Reports snapshot maxDepth item := by
  induction items generalizing report with
  | nil => simp
  | cons item items ih =>
    rw [List.foldl_cons, ih, List.exists_mem_cons_iff, ← or_assoc]
    apply or_congr_left
    rw [Reported, Reported]
    show (_ || _) = true ∨ (record snapshot maxDepth report.sets item).unresolved.Nonempty ↔ _
    rw [unresolved_record, Bool.or_eq_true, Bool.and_eq_true, Bool.and_eq_true, decide_eq_true_iff,
      decide_eq_true_iff]
    constructor
    · rintro ((h | ⟨-, -, h⟩) | h | h)
      · exact .inl (.inl h)
      · exact .inr (.inr (.inr h))
      · exact .inl (.inr h)
      · exact .inr h
    · rintro ((h | h) | h)
      · exact .inl (.inl h)
      · exact .inr (.inl h)
      · exact .inr (.inr h)

theorem Reaches.pump {n m : Nat} (h : Reaches snapshot roots n ref)
    (hcycle : Relation.TransGen (Dependency snapshot) ref ref) (hm : n ≤ m) :
    ∃ via, Reaches snapshot roots m via := by
  have hwalk (k : Nat) : ∃ via, Reaches snapshot roots (n + k) via ∧
      Relation.TransGen (Dependency snapshot) via via := by
    induction k with
    | zero => exact ⟨ref, h, hcycle⟩
    | succ k ih =>
      obtain ⟨via, hvia, hround⟩ := ih
      obtain ⟨next, hstep, hback⟩ := Relation.TransGen.head'_iff.mp hround
      exact ⟨next, .step hvia hstep, Relation.TransGen.tail' hback hstep⟩
  obtain ⟨k, rfl⟩ := Nat.exists_eq_add_of_le hm
  obtain ⟨via, hvia, -⟩ := hwalk k
  exact ⟨via, hvia⟩

theorem Reaches.queued_or_cycle {n : Nat} (h : Reaches snapshot roots n ref) (hn : n ≤ maxDepth) :
    (∃ item, Queued snapshot maxDepth roots item ∧ item.ref = ref ∧ item.depth = n) ∨
      ∃ item, Queued snapshot maxDepth roots item ∧ item.ref ∈ item.lineage := by
  induction h with
  | @root ref hroot => exact .inl ⟨⟨ref, 0, []⟩, ⟨ref, hroot, .refl⟩, rfl, rfl⟩
  | @step n a b h hdep ih =>
    rcases ih (by omega) with ⟨item, hitem, rfl, rfl⟩ | hcycle
    · by_cases hlineage : item.ref ∈ item.lineage
      · exact .inr ⟨item, hitem, hlineage⟩
      · exact .inl ⟨_, hitem.step hlineage (by omega) hdep, rfl, rfl⟩
    · exact .inr hcycle

/-- Some walk from a root is as long as the limit, or a boundary lies inside it. -/
def LeavesOut (snapshot : CatalogSnapshot) (maxDepth : Nat) (roots : List Chars) : Prop :=
  (∃ ref, Reaches snapshot roots maxDepth ref) ∨
    ∃ ref, Inside snapshot maxDepth roots ref ∧ Bounded snapshot ref

theorem reported_iff : Reported (resolveReport snapshot maxDepth roots) ↔
    LeavesOut snapshot maxDepth roots := by
  rw [resolveReport_eq_foldl, reported_foldl]
  constructor
  · rintro (h | ⟨item, hitem, hreports⟩)
    · -- nothing is reported before the first turn
      rcases h with h | h
      · cases h
      · exact absurd h Finset.not_nonempty_empty
    · have hqueued := mem_itemTurns.mp hitem
      have hwalked := hqueued.walked
      by_cases hdepth : item.depth < maxDepth
      · rcases hreports with hbounded | hlineage | hlimit
        · exact .inr ⟨item.ref, hqueued.inside hdepth, hbounded⟩
        · exact .inl (hwalked.reaches.pump (hwalked.leads _ hlineage) hwalked.bounded)
        · omega
      · have heq : item.depth = maxDepth :=
          Nat.le_antisymm hwalked.bounded (Nat.le_of_not_lt hdepth)
        exact .inl ⟨item.ref, heq ▸ hwalked.reaches⟩
  · rintro (⟨ref, hreaches⟩ | ⟨ref, hinside, hbounded⟩)
    · rcases hreaches.queued_or_cycle (Nat.le_refl maxDepth) with ⟨item, hitem, -, hdepth⟩ |
        ⟨item, hitem, hlineage⟩
      · exact .inr ⟨item, mem_itemTurns.mpr hitem, .inr (.inr (Nat.le_of_eq hdepth.symm))⟩
      · exact .inr ⟨item, mem_itemTurns.mpr hitem, .inr (.inl hlineage)⟩
    · obtain ⟨item, hitem, rfl, -⟩ := hinside.queued
      exact .inr ⟨item, mem_itemTurns.mpr hitem, .inl hbounded⟩

/-! ## Edges -/

/-- The edge of a dependency inside the limit. -/
def EdgeOf (snapshot : CatalogSnapshot) (maxDepth : Nat) (roots : List Chars) (edge : LineageEdge) :
    Prop :=
  Inside snapshot maxDepth roots edge.sourceRef ∧
    ∃ relation, snapshot.relation edge.sourceRef = some relation ∧
      edge.targetRef ∈ targetsOf relation ∧ edge.edgeKind = edgeKindOf relation

/-- Two dependencies inside the limit have one id text only if they are the same. -/
def IdsDistinct (snapshot : CatalogSnapshot) (maxDepth : Nat) (roots : List Chars) : Prop :=
  ∀ edge edge', EdgeOf snapshot maxDepth roots edge → EdgeOf snapshot maxDepth roots edge' →
    edge.idText = edge'.idText → edge = edge'

theorem mem_nextEdges :
    edge ∈ nextEdges snapshot maxDepth item ↔
      edge.sourceRef = item.ref ∧ item.ref ∉ item.lineage ∧ item.depth < maxDepth ∧
        ∃ relation, snapshot.relation item.ref = some relation ∧
          edge.targetRef ∈ targetsOf relation ∧ edge.edgeKind = edgeKindOf relation := by
  unfold nextEdges
  split
  · next hnone => simp [hnone]
  · next relation hrelation =>
      split
      · next hstop =>
          refine iff_of_false nofun ?_
          rintro ⟨-, hlineage, hdepth, -⟩
          rcases hstop with h | h
          · exact hlineage h
          · omega
      · next hgoes =>
          obtain ⟨hlineage, hdepth⟩ := not_or.mp hgoes
          rw [List.mem_map]
          constructor
          · rintro ⟨target, htarget, rfl⟩
            exact ⟨rfl, hlineage, Nat.lt_of_not_le hdepth, relation, hrelation, htarget, rfl⟩
          · rintro ⟨hsource, -, -, relation', hrelation', htarget, hkind⟩
            obtain rfl : relation = relation' := Option.some.inj (hrelation.symm.trans hrelation')
            exact ⟨edge.targetRef, htarget, by rw [← hsource, ← hkind]⟩

theorem written_iff :
    edge ∈ (itemTurns snapshot maxDepth roots).flatMap (nextEdges snapshot maxDepth) ↔
      EdgeOf snapshot maxDepth roots edge := by
  rw [List.mem_flatMap]
  constructor
  · rintro ⟨item, hitem, hedge⟩
    obtain ⟨hsource, -, hdepth, relation, hrelation, htarget, hkind⟩ := mem_nextEdges.mp hedge
    rw [← hsource] at hrelation
    refine ⟨?_, relation, hrelation, htarget, hkind⟩
    rw [hsource]
    exact (mem_itemTurns.mp hitem).inside hdepth
  · rintro ⟨hinside, relation, hrelation, htarget, hkind⟩
    obtain ⟨item, hitem, href, hdepth, hlineage⟩ := hinside.queued
    rw [← href] at hrelation
    exact ⟨item, mem_itemTurns.mpr hitem,
      mem_nextEdges.mpr ⟨href.symm, hlineage, hdepth, relation, hrelation, htarget, hkind⟩⟩

theorem edges_eq_foldl (items : List Pending) (report : RelationLineageReport) :
    (items.foldl (reportTurn snapshot maxDepth) report).edges =
      (items.flatMap (nextEdges snapshot maxDepth)).foldl
        (fun es edge => setEntry es edge.idText edge) report.edges := by
  induction items generalizing report with
  | nil => rfl
  | cons item items ih => rw [List.foldl_cons, ih, List.flatMap_cons, List.foldl_append]; rfl

theorem mem_edges_entry {text : Chars} :
    (text, edge) ∈ (resolveReport snapshot maxDepth roots).edges ↔
      ((itemTurns snapshot maxDepth roots).flatMap (nextEdges snapshot maxDepth)).reverse.find?
        (fun edge => edge.idText = text) = some edge := by
  rw [resolveReport_eq_foldl, edges_eq_foldl]
  refine (mem_foldl_setEntry LineageEdge.idText id).trans ?_
  constructor
  · rintro ⟨edge, hfind, rfl⟩
    exact hfind
  · exact fun hfind => ⟨edge, hfind, rfl⟩

theorem edgeOf_of_mem (h : edge ∈ (resolveReport snapshot maxDepth roots).edges.map Prod.snd) :
    EdgeOf snapshot maxDepth roots edge := by
  obtain ⟨⟨text, edge⟩, hmem, rfl⟩ := List.mem_map.mp h
  have hfind := List.mem_of_find?_eq_some (mem_edges_entry.mp hmem)
  exact written_iff.mp (List.mem_reverse.mp hfind)

theorem exists_edge (h : EdgeOf snapshot maxDepth roots edge) :
    ∃ edge', (edge.idText, edge') ∈ (resolveReport snapshot maxDepth roots).edges ∧
      edge'.idText = edge.idText := by
  have hsome : (((itemTurns snapshot maxDepth roots).flatMap
      (nextEdges snapshot maxDepth)).reverse.find? fun e => e.idText = edge.idText).isSome := by
    rw [List.find?_isSome]
    exact ⟨edge, List.mem_reverse.mpr (written_iff.mpr h), by simp⟩
  obtain ⟨edge', hfind⟩ := Option.isSome_iff_exists.mp hsome
  exact ⟨edge', mem_edges_entry.mpr hfind, by simpa using List.find?_some hfind⟩

/-- All edges are kept exactly when their id texts tell them apart. -/
theorem edges_complete_iff :
    (∀ edge, EdgeOf snapshot maxDepth roots edge →
      edge ∈ (resolveReport snapshot maxDepth roots).edges.map Prod.snd) ↔
      IdsDistinct snapshot maxDepth roots := by
  constructor
  · intro hall edge edge' hedge hedge' htext
    obtain ⟨⟨text, e⟩, hmem, rfl⟩ := List.mem_map.mp (hall edge hedge)
    obtain ⟨⟨text', e'⟩, hmem', rfl⟩ := List.mem_map.mp (hall edge' hedge')
    -- an entry stands under the id text of its edge, and each text has one entry
    have hfind := mem_edges_entry.mp hmem
    have hfind' := mem_edges_entry.mp hmem'
    have hkey : e.idText = text := by simpa using List.find?_some hfind
    have hkey' : e'.idText = text' := by simpa using List.find?_some hfind'
    have hsame : text = text' := by
      rw [← hkey, ← hkey']
      exact htext
    rw [hsame, hfind'] at hfind
    exact (Option.some.inj hfind).symm
  · intro hdistinct edge hedge
    obtain ⟨edge', hmem, htext⟩ := exists_edge hedge
    have hother : EdgeOf snapshot maxDepth roots edge' :=
      edgeOf_of_mem (List.mem_map.mpr ⟨_, hmem, rfl⟩)
    obtain rfl := hdistinct edge' edge hother hedge htext
    exact List.mem_map.mpr ⟨_, hmem, rfl⟩

/-! ## Exactness -/

/-- A relation whose dependencies are known: a relation with rows of its own, a view with its text
or a synonym with its target. -/
def Expandable (snapshot : CatalogSnapshot) (ref : Chars) : Prop :=
  ∃ relation, snapshot.relation ref = some relation ∧
    match relation.relationKind with
    | .table | .nickname | .temporaryTable => True
    | .view | .materializedQueryTable => isMissing relation.viewDefinitionText = false
    | .synonym => isMissing relation.synonymTargetRef = false
    | .tableFunction | .unknown => False

/-- A relation that ends a path without a word: of unknown kind, or a synonym without a target. -/
def Silent (snapshot : CatalogSnapshot) (ref : Chars) : Prop :=
  ∃ relation, snapshot.relation ref = some relation ∧
    (relation.relationKind = .unknown ∨
      (relation.relationKind = .synonym ∧ isMissing relation.synonymTargetRef = true))

/-- A relation is expanded when it lies inside the limit and its dependencies are known. -/
def Expanded (snapshot : CatalogSnapshot) (maxDepth : Nat) (roots : List Chars) (ref : Chars) :
    Prop :=
  Inside snapshot maxDepth roots ref ∧ Expandable snapshot ref

theorem Silent.not_expandable (h : Silent snapshot ref) : ¬ Expandable snapshot ref := by
  obtain ⟨relation, hrelation, hkind⟩ := h
  rintro ⟨relation', hrelation', hexpandable⟩
  obtain rfl := Option.some.inj (hrelation.symm.trans hrelation')
  rcases hkind with hkind | ⟨hkind, hmissing⟩
  · rw [hkind] at hexpandable
    exact hexpandable
  · rw [hkind] at hexpandable
    simp only at hexpandable
    rw [hmissing] at hexpandable
    cases hexpandable

/-- A relation that is not expanded is a boundary or says nothing. -/
theorem bounded_or_silent (h : ¬ Expandable snapshot ref) :
    Bounded snapshot ref ∨ Silent snapshot ref := by
  cases hrelation : snapshot.relation ref with
  | none =>
    refine .inl fun relation hsome => ?_
    rw [hrelation] at hsome
    cases hsome
  | some relation =>
    have hbounded (hkind : match relation.relationKind with
        | .view | .materializedQueryTable => isMissing relation.viewDefinitionText = true
        | .nickname => isMissing relation.remoteSourceRef = true
        | .tableFunction => True
        | _ => False) : Bounded snapshot ref := by
      intro relation' hrelation'
      obtain rfl := Option.some.inj (hrelation.symm.trans hrelation')
      exact hkind
    have hnot (hkind : match relation.relationKind with
        | .table | .nickname | .temporaryTable => True
        | .view | .materializedQueryTable => isMissing relation.viewDefinitionText = false
        | .synonym => isMissing relation.synonymTargetRef = false
        | .tableFunction | .unknown => False) : False := h ⟨relation, hrelation, hkind⟩
    cases hkind : relation.relationKind with
    | table => exact absurd (by rw [hkind]; trivial) hnot
    | nickname => exact absurd (by rw [hkind]; trivial) hnot
    | temporaryTable => exact absurd (by rw [hkind]; trivial) hnot
    | view =>
      refine .inl (hbounded ?_)
      rw [hkind] at hnot ⊢
      exact Bool.of_not_eq_false hnot
    | materializedQueryTable =>
      refine .inl (hbounded ?_)
      rw [hkind] at hnot ⊢
      exact Bool.of_not_eq_false hnot
    | synonym =>
      refine .inr ⟨relation, hrelation, .inr ⟨hkind, ?_⟩⟩
      rw [hkind] at hnot
      exact Bool.of_not_eq_false hnot
    | tableFunction => exact .inl (hbounded (by rw [hkind]; trivial))
    | unknown => exact .inr ⟨relation, hrelation, .inl hkind⟩

/-- Whatever is left out is reported exactly when nothing inside the limit is silent, or something
else is reported anyway. -/
theorem reported_complete_iff :
    ((∃ ref, (∃ n, Reaches snapshot roots n ref) ∧ ¬ Expanded snapshot maxDepth roots ref) →
      Reported (resolveReport snapshot maxDepth roots)) ↔
      (∀ ref, Inside snapshot maxDepth roots ref → ¬ Silent snapshot ref) ∨
        LeavesOut snapshot maxDepth roots := by
  rw [reported_iff]
  constructor
  · intro h
    by_cases hsilent : ∃ ref, Inside snapshot maxDepth roots ref ∧ Silent snapshot ref
    · obtain ⟨ref, hinside, hsilent⟩ := hsilent
      obtain ⟨n, -, hreaches⟩ := hinside
      exact .inr (h ⟨ref, ⟨n, hreaches⟩, fun hexpanded => hsilent.not_expandable hexpanded.2⟩)
    · exact .inl fun ref hinside hsilent' => hsilent ⟨ref, hinside, hsilent'⟩
  · rintro (hquiet | hleaves) ⟨ref, ⟨n, hreaches⟩, hnot⟩
    · by_cases hinside : Inside snapshot maxDepth roots ref
      · rcases bounded_or_silent fun h => hnot ⟨hinside, h⟩ with hbounded | hsilent
        · exact .inr ⟨ref, hinside, hbounded⟩
        · exact absurd hsilent (hquiet ref hinside)
      · -- a relation outside the limit is reached by a walk across it
        have hlong : maxDepth ≤ n := Nat.le_of_not_lt fun hn => hinside ⟨n, hn, hreaches⟩
        exact .inl (hreaches.exists_at hlong)
    · exact hleaves

/-- What the lineage of the roots should be. -/
structure LineageExact (snapshot : CatalogSnapshot) (maxDepth : Nat) (roots : List Chars) :
    Prop where
  terminates : ∀ fuel, turnBound snapshot maxDepth roots ≤ fuel →
    resolveTurns snapshot maxDepth roots fuel = resolveReport snapshot maxDepth roots
  nodesDistinct : ((resolveReport snapshot maxDepth roots).nodes.map Prod.fst).Nodup
  nodes : ∀ node, node ∈ (resolveReport snapshot maxDepth roots).nodes.map Prod.snd ↔
    NodeOf snapshot maxDepth roots node
  base : ∀ ref, ref ∈ (resolveReport snapshot maxDepth roots).sets.base ↔
    TableLike snapshot ref ∧ Inside snapshot maxDepth roots ref
  edges : ∀ edge, EdgeOf snapshot maxDepth roots edge →
    edge ∈ (resolveReport snapshot maxDepth roots).edges.map Prod.snd
  reported : (∃ ref, (∃ n, Reaches snapshot roots n ref) ∧ ¬ Expanded snapshot maxDepth roots ref) →
    Reported (resolveReport snapshot maxDepth roots)

/-- The traversal ends with exact nodes and base relations in every catalog. It is exact as a whole
when no two dependencies inside the limit share an id text, and nothing inside it is silent unless
something else is reported anyway. -/
theorem lineage_exact_iff (snapshot : CatalogSnapshot) (maxDepth : Nat) (roots : List Chars) :
    LineageExact snapshot maxDepth roots ↔
      IdsDistinct snapshot maxDepth roots ∧
        ((∀ ref, Inside snapshot maxDepth roots ref → ¬ Silent snapshot ref) ∨
          LeavesOut snapshot maxDepth roots) := by
  rw [← edges_complete_iff, ← reported_complete_iff]
  constructor
  · exact fun h => ⟨h.edges, h.reported⟩
  · rintro ⟨hedges, hreported⟩
    exact ⟨fun _ hfuel => resolveTurns_fuel hfuel, nodes_nodup, fun _ => mem_nodes,
      fun _ => mem_base, hedges, hreported⟩

end Report

/-! ## Two catalogs -/

def synonym (ref target : String) : CatalogRelation where
  relationRef := ref.toList
  relationKind := .synonym
  schemaName := "S".toList
  synonymTargetRef := some target.toList

/-- Two synonyms whose dependencies have one id text. -/
def barSnapshot : CatalogSnapshot where
  relations := [synonym "S.A" "S.B|SYNONYM_OF|S.C", synonym "S.A|SYNONYM_OF|S.B" "S.C"]
  unique := by decide +kernel

def barRoots : List Chars := ["S.A".toList, "S.A|SYNONYM_OF|S.B".toList]

def barEdge (source target : String) : LineageEdge :=
  ⟨source.toList, target.toList, "SYNONYM_OF".toList⟩

/-- A relation the provider could not classify. -/
def unknownSnapshot : CatalogSnapshot where
  relations := [{ relationRef := "S.X".toList, relationKind := .unknown, schemaName := "S".toList }]
  unique := by decide +kernel

theorem barSnapshot_edge {ref target : String} (hroot : ref.toList ∈ rootRefs barRoots)
    (hrelation : barSnapshot.relation ref.toList = some (synonym ref target))
    (htarget : targetsOf (synonym ref target) = [target.toList]) :
    EdgeOf barSnapshot 8 barRoots (barEdge ref target) := by
  refine ⟨⟨0, by decide, .root hroot⟩, synonym ref target, hrelation, ?_, rfl⟩
  rw [htarget]
  exact List.mem_singleton.mpr rfl

theorem barSnapshot_ids : ¬ IdsDistinct barSnapshot 8 barRoots := by
  intro h
  have hequal := h (barEdge "S.A" "S.B|SYNONYM_OF|S.C") (barEdge "S.A|SYNONYM_OF|S.B" "S.C")
    (barSnapshot_edge (by decide +kernel) (by decide +kernel) (by decide +kernel))
    (barSnapshot_edge (by decide +kernel) (by decide +kernel) (by decide +kernel))
    (by decide +kernel)
  revert hequal
  decide +kernel

/-- The edge of one synonym replaces that of the other, and a relation of unknown kind is passed
over without a report. -/
theorem dependencies_lost :
    ¬ LineageExact barSnapshot 8 barRoots ∧ ¬ LineageExact unknownSnapshot 8 ["S.X".toList] := by
  constructor
  · exact fun h => barSnapshot_ids (edges_complete_iff.mp h.edges)
  · intro h
    have hquiet : ¬ Reported (resolveReport unknownSnapshot 8 ["S.X".toList]) := by
      rw [Reported, Finset.nonempty_iff_ne_empty]
      decide +kernel
    refine hquiet (h.reported ⟨"S.X".toList, ⟨0, .root (by decide +kernel)⟩, ?_⟩)
    rintro ⟨-, relation, hrelation, hexpandable⟩
    have hfound : unknownSnapshot.relation "S.X".toList =
        some ⟨"S.X".toList, .unknown, "S".toList, none, none, none⟩ := by decide +kernel
    obtain rfl := Option.some.inj (hfound.symm.trans hrelation)
    exact hexpandable

end AtlasDb.Catalog
