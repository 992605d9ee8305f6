import AtlasDb.Graph.Store

/-!
# Complete neighbourhoods

A round of `neighborhood` asks for all edges that touch the frontier, also those of earlier rounds,
and its LIMIT is what the edges found have left of the whole budget. Edges met again use up this
limit, so a round with a new edge is answered in full only if the rows of its query and the edges
found before fit the limit together. That condition on the rounds decides the completeness of all
neighbourhoods up to a depth.
-/

namespace AtlasDb.Graph

/-! ## Balls -/

/-- The ends of the edges. -/
def endpoints (rows : List EdgeRow) : Finset String :=
  (rows.flatMap fun row => [row.sourceNode, row.targetNode]).toFinset

variable {n : Nat}

section Balls

variable (store : GraphStore) (tenant nodeId : String)

/-- The nodes within a distance. -/
def ball : Nat → Finset String
  | 0 => {nodeId}
  | n + 1 => ball n ∪ endpoints (store.matching tenant (ball n))

/-- The nodes at a smaller distance. -/
def inner : Nat → Finset String
  | 0 => ∅
  | n + 1 => ball store tenant nodeId n

/-- The nodes at exactly this distance. -/
def layer (n : Nat) : Finset String := ball store tenant nodeId n \ inner store tenant nodeId n

/-- The edges with an end at a smaller distance. -/
def edgesWithin (n : Nat) : List EdgeRow := store.matching tenant (inner store tenant nodeId n)

/-- The node is reached over so many edges of the tenant. -/
inductive Walk : Nat → String → Prop where
  | start : Walk 0 nodeId
  | step {n : Nat} {row : EdgeRow} {u v : String} (h : Walk n u) (hrow : row ∈ store.edges)
      (htenant : row.tenantRef = tenant)
      (hends : (row.sourceNode = u ∧ row.targetNode = v) ∨
        (row.sourceNode = v ∧ row.targetNode = u)) :
      Walk (n + 1) v

variable {store tenant nodeId}

theorem mem_endpoints {rows : List EdgeRow} {x : String} :
    x ∈ endpoints rows ↔ ∃ row ∈ rows, x = row.sourceNode ∨ x = row.targetNode := by
  simp [endpoints]

theorem mem_matching {ids : Finset String} {row : EdgeRow} :
    row ∈ store.matching tenant ids ↔ row ∈ store.edges ∧ row.tenantRef = tenant ∧
      (row.sourceNode ∈ ids ∨ row.targetNode ∈ ids) := by
  simp [GraphStore.matching, EdgeRow.touches]

theorem inner_subset (n : Nat) : inner store tenant nodeId n ⊆ ball store tenant nodeId n := by
  cases n with
  | zero => exact Finset.empty_subset _
  | succ n => exact Finset.subset_union_left

/-- A ball holds what short walks reach. -/
theorem mem_ball {x : String} :
    x ∈ ball store tenant nodeId n ↔ ∃ m ≤ n, Walk store tenant nodeId m x := by
  induction n generalizing x with
  | zero =>
    rw [ball, Finset.mem_singleton]
    constructor
    · rintro rfl
      exact ⟨0, Nat.le_refl 0, .start⟩
    · rintro ⟨m, hm, hwalk⟩
      obtain rfl : m = 0 := by omega
      cases hwalk
      rfl
  | succ n ih =>
    rw [ball, Finset.mem_union, mem_endpoints]
    constructor
    · rintro (hx | ⟨row, hrow, hend⟩)
      · obtain ⟨m, hm, hwalk⟩ := ih.mp hx
        exact ⟨m, by omega, hwalk⟩
      · obtain ⟨hmem, htenant, htouches⟩ := mem_matching.mp hrow
        -- an end of the edge lies in the ball, so both ends are one step further at most
        rcases htouches with hsource | htarget
        · obtain ⟨m, hm, hwalk⟩ := ih.mp hsource
          rcases hend with rfl | rfl
          · exact ⟨m, by omega, hwalk⟩
          · exact ⟨m + 1, by omega, .step hwalk hmem htenant (.inl ⟨rfl, rfl⟩)⟩
        · obtain ⟨m, hm, hwalk⟩ := ih.mp htarget
          rcases hend with rfl | rfl
          · exact ⟨m + 1, by omega, .step hwalk hmem htenant (.inr ⟨rfl, rfl⟩)⟩
          · exact ⟨m, by omega, hwalk⟩
    · rintro ⟨m, hm, hwalk⟩
      cases hwalk with
      | start => exact .inl (ih.mpr ⟨0, Nat.zero_le _, .start⟩)
      | @step m row u _ hu hrow htenant hends =>
        have hball := ih.mpr ⟨m, by omega, hu⟩
        refine .inr ⟨row, mem_matching.mpr ⟨hrow, htenant, ?_⟩, ?_⟩
        · rcases hends with ⟨rfl, -⟩ | ⟨-, rfl⟩
          · exact .inl hball
          · exact .inr hball
        · rcases hends with ⟨-, rfl⟩ | ⟨rfl, -⟩
          · exact .inr rfl
          · exact .inl rfl

theorem edgesWithin_succ {row : EdgeRow} :
    row ∈ edgesWithin store tenant nodeId (n + 1) ↔
      row ∈ edgesWithin store tenant nodeId n ∨
        row ∈ store.matching tenant (layer store tenant nodeId n) := by
  have hsplit (x : String) : x ∈ ball store tenant nodeId n ↔
      x ∈ inner store tenant nodeId n ∨ x ∈ layer store tenant nodeId n := by
    rw [layer, Finset.mem_sdiff]
    constructor
    · intro hx
      by_cases hinner : x ∈ inner store tenant nodeId n
      · exact .inl hinner
      · exact .inr ⟨hx, hinner⟩
    · rintro (hx | hx)
      · exact inner_subset n hx
      · exact hx.1
  simp only [edgesWithin, mem_matching, inner, hsplit]
  tauto

theorem endpoints_edgesWithin (n : Nat) :
    endpoints (edgesWithin store tenant nodeId n) ⊆ ball store tenant nodeId n := by
  cases n with
  | zero =>
    intro x hx
    obtain ⟨row, hrow, -⟩ := mem_endpoints.mp hx
    obtain ⟨-, -, h | h⟩ := mem_matching.mp hrow
    · cases h
    · cases h
  | succ n => exact Finset.subset_union_right

theorem ball_succ (n : Nat) :
    ball store tenant nodeId (n + 1) =
      ball store tenant nodeId n ∪ endpoints
      (store.matching tenant (layer store tenant nodeId n)) := by
  ext x
  show x ∈ _ ∪ endpoints (edgesWithin store tenant nodeId (n + 1)) ↔ _
  rw [Finset.mem_union, Finset.mem_union]
  constructor
  · rintro (hx | hx)
    · exact .inl hx
    · obtain ⟨row, hrow, hend⟩ := mem_endpoints.mp hx
      rcases edgesWithin_succ.mp hrow with hold | hnew
      · exact .inl (endpoints_edgesWithin n (mem_endpoints.mpr ⟨row, hold, hend⟩))
      · exact .inr (mem_endpoints.mpr ⟨row, hnew, hend⟩)
  · rintro (hx | hx)
    · exact .inl hx
    · obtain ⟨row, hrow, hend⟩ := mem_endpoints.mp hx
      exact .inr (mem_endpoints.mpr ⟨row, edgesWithin_succ.mpr (.inr hrow), hend⟩)

theorem matching_nodup (ids : Finset String) : (store.matching tenant ids).Nodup :=
  (List.Nodup.of_map _ store.edges_unique).filter _

theorem edgesWithin_mono {n m : Nat} (h : n ≤ m) {row : EdgeRow}
    (hrow : row ∈ edgesWithin store tenant nodeId n) : row ∈ edgesWithin store tenant nodeId m := by
  induction h with
  | refl => exact hrow
  | step _ ih => exact edgesWithin_succ.mpr (.inl ih)

theorem edgesWithin_length {n m : Nat} (h : n ≤ m) :
    (edgesWithin store tenant nodeId n).length ≤ (edgesWithin store tenant nodeId m).length :=
  ((matching_nodup _).subperm fun _ hrow => edgesWithin_mono h hrow).length_le

theorem ball_stable
    (h : ∀ row ∈ edgesWithin store tenant nodeId (n + 1), row ∈ edgesWithin store tenant nodeId n) :
    ball store tenant nodeId (n + 1) = ball store tenant nodeId n := by
  refine Finset.union_eq_left.mpr fun x hx => ?_
  obtain ⟨row, hrow, hend⟩ := mem_endpoints.mp hx
  exact endpoints_edgesWithin n (mem_endpoints.mpr ⟨row, h row hrow, hend⟩)

end Balls

/-! ## Rounds -/

section Absorb

variable {rows : List EdgeRow} {s : SearchState}

theorem absorb_foldl (rows : List EdgeRow) (s : SearchState) :
    (rows.foldl SearchState.absorbRow s).visited = s.visited ∪ endpoints rows ∧
      (rows.foldl SearchState.absorbRow s).frontier =
        s.frontier ∪ (endpoints rows \ s.visited) ∧
      (s.edges.Nodup → (rows.foldl SearchState.absorbRow s).edges.Nodup) ∧
      ∀ e, e ∈ (rows.foldl SearchState.absorbRow s).edges ↔
        e ∈ s.edges ∨ ∃ row ∈ rows, row.record = e := by
  induction rows generalizing s with
  | nil => simp [endpoints]
  | cons row rows ih =>
    obtain ⟨hvisited, hfrontier, hnodup, hedges⟩ := ih (s.absorbRow row)
    have hcons : endpoints (row :: rows) = {row.sourceNode, row.targetNode} ∪ endpoints rows := by
      ext x
      simp [endpoints, or_assoc]
    rw [List.foldl_cons]
    refine ⟨?_, ?_, ?_, ?_⟩
    · rw [hvisited, hcons, ← Finset.union_assoc]
      rfl
    · rw [hfrontier, hcons]
      ext x
      simp only [SearchState.absorbRow, Finset.mem_union, Finset.mem_sdiff]
      tauto
    · intro h
      refine hnodup ?_
      unfold SearchState.absorbRow
      simp only
      split
      · exact h
      · next hnew =>
          refine List.Nodup.append h (List.nodup_singleton _) ?_
          rw [List.disjoint_singleton]
          exact hnew
    · intro e
      rw [hedges, List.exists_mem_cons_iff, ← or_assoc]
      apply or_congr_left
      unfold SearchState.absorbRow
      simp only
      split
      · next hold =>
          constructor
          · exact .inl
          · rintro (h | rfl)
            · exact h
            · exact hold
      · rw [List.mem_append, List.mem_singleton, eq_comm]

theorem absorb_visited : (s.absorb rows).visited = s.visited ∪ endpoints rows :=
  (absorb_foldl rows _).1

theorem absorb_frontier : (s.absorb rows).frontier = endpoints rows \ s.visited := by
  rw [SearchState.absorb, (absorb_foldl rows _).2.1]
  ext x
  simp

theorem absorb_nodup (h : s.edges.Nodup) : (s.absorb rows).edges.Nodup :=
  (absorb_foldl rows _).2.2.1 h

theorem mem_absorb_edges {e : EdgeRecord} :
    e ∈ (s.absorb rows).edges ↔ e ∈ s.edges ∨ ∃ row ∈ rows, row.record = e :=
  (absorb_foldl rows _).2.2.2 e

end Absorb

section Rounds

variable {store : GraphStore} {tenant nodeId : String} {limit : Int}

theorem record_injective {row row' : EdgeRow} (hrow : row ∈ store.edges)
    (hrow' : row' ∈ store.edges)
    (htenant : row.tenantRef = tenant) (htenant' : row'.tenantRef = tenant)
    (h : row.record = row'.record) : row = row' := by
  apply List.inj_on_of_nodup_map store.edges_unique hrow hrow'
  rw [EdgeRow.key, EdgeRow.key, htenant, htenant']
  have hid := congrArg EdgeRecord.edgeId h
  have hgraph := congrArg EdgeRecord.graphId h
  have hdigest := congrArg EdgeRecord.graphDigest h
  exact Prod.ext rfl (Prod.ext hgraph (Prod.ext hdigest hid))

/-- After `n` rounds everything within the distance is found; the frontier is the last layer unless
the budget is spent. -/
structure Exact (store : GraphStore) (tenant nodeId : String) (limit : Int) (n : Nat)
    (s : SearchState) :
    Prop where
  visited : s.visited = ball store tenant nodeId n
  frontier : limit ≤ s.edges.length ∨ s.frontier = layer store tenant nodeId n
  nodup : s.edges.Nodup
  edges : ∀ e, e ∈ s.edges ↔ ∃ row ∈ edgesWithin store tenant nodeId n, row.record = e

theorem exact_start : Exact store tenant nodeId limit 0 (.start nodeId) where
  visited := rfl
  frontier := .inr (Finset.sdiff_empty).symm
  nodup := List.nodup_nil
  edges := by
    intro e
    refine iff_of_false nofun ?_
    rintro ⟨row, hrow, -⟩
    obtain ⟨-, -, h | h⟩ := mem_matching.mp hrow
    · cases h
    · cases h

theorem matching_records_nodup (ids : Finset String) :
    ((store.matching tenant ids).map EdgeRow.record).Nodup := by
  refine List.Nodup.map_on (fun row hrow row' hrow' h => ?_) (matching_nodup ids)
  obtain ⟨hmem, htenant, -⟩ := mem_matching.mp hrow
  obtain ⟨hmem', htenant', -⟩ := mem_matching.mp hrow'
  exact record_injective hmem hmem' htenant htenant' h

variable {n : Nat} {s : SearchState}

theorem Exact.length (h : Exact store tenant nodeId limit n s) :
    s.edges.length = (edgesWithin store tenant nodeId n).length := by
  have hperm : s.edges.Perm ((edgesWithin store tenant nodeId n).map EdgeRow.record) := by
    refine (List.perm_ext_iff_of_nodup h.nodup (matching_records_nodup _)).mpr fun e => ?_
    rw [h.edges, List.mem_map]
    rfl
  rw [hperm.length_eq, List.length_map]

/-- The rows of a round and the edges found before fit the limit together, or the round meets no new
edge. -/
def RoundFits (store : GraphStore) (tenant nodeId : String) (limit : Int) (n : Nat) : Prop :=
  (edgesWithin store tenant nodeId (n + 1)).length ≤ limit →
    ((edgesWithin store tenant nodeId n).length +
        (store.matching tenant (layer store tenant nodeId n)).length : Int) ≤ limit ∨
      ∀ row ∈ edgesWithin store tenant nodeId (n + 1), row ∈ edgesWithin store tenant nodeId n

theorem Exact.stable (h : Exact store tenant nodeId limit n s)
    (hstable : ∀ row ∈ edgesWithin store tenant nodeId (n + 1),
      row ∈ edgesWithin store tenant nodeId n)
    {s' : SearchState} (hvisited : s'.visited = s.visited)
    (hfrontier : limit ≤ s'.edges.length ∨ s'.frontier = ∅) (hnodup : s'.edges.Nodup)
    (hedges : ∀ e, e ∈ s'.edges ↔ e ∈ s.edges) : Exact store tenant nodeId limit (n + 1) s' where
  visited := by rw [hvisited, h.visited, ball_stable hstable]
  frontier := by
    refine hfrontier.imp id fun hempty => ?_
    rw [hempty, layer, inner, ball_stable hstable, Finset.sdiff_self]
  nodup := hnodup
  edges := by
    intro e
    rw [hedges, h.edges]
    constructor
    · rintro ⟨row, hrow, he⟩
      exact ⟨row, edgesWithin_succ.mpr (.inl hrow), he⟩
    · rintro ⟨row, hrow, he⟩
      exact ⟨row, hstable row hrow, he⟩

theorem Exact.stable_of_spent (h : Exact store tenant nodeId limit n s)
    (hlimit : ((edgesWithin store tenant nodeId (n + 1)).length : Int) ≤ limit)
    (hspent : limit ≤ s.edges.length) :
    ∀ row ∈ edgesWithin store tenant nodeId (n + 1), row ∈ edgesWithin store tenant nodeId n := by
  have hsub : (edgesWithin store tenant nodeId n).Subperm
    (edgesWithin store tenant nodeId (n + 1)) :=
    (matching_nodup _).subperm fun _ hrow => edgesWithin_mono (Nat.le_add_right n 1) hrow
  rw [h.length] at hspent
  have hperm := hsub.perm_of_length_le (by omega)
  exact fun row hrow => hperm.mem_iff.mpr hrow

theorem stable_of_layer (h : layer store tenant nodeId n = ∅) :
    ∀ row ∈ edgesWithin store tenant nodeId (n + 1), row ∈ edgesWithin store tenant nodeId n := by
  intro row hrow
  rcases edgesWithin_succ.mp hrow with hold | hnew
  · exact hold
  · rw [h] at hnew
    obtain ⟨-, -, hend | hend⟩ := mem_matching.mp hnew
    · cases hend
    · cases hend

/-- A round that fits stays exact. -/
theorem Exact.round {s s' : SearchState} (h : Exact store tenant nodeId limit n s)
    (hfits : RoundFits store tenant nodeId limit n)
    (hlimit : ((edgesWithin store tenant nodeId (n + 1)).length : Int) ≤ limit)
    (hround : Round store tenant limit s s') : Exact store tenant nodeId limit (n + 1) s' := by
  cases hround with
  | stop hstop =>
    by_cases hspent : limit ≤ s.edges.length
    · exact h.stable (h.stable_of_spent hlimit hspent) rfl (.inl hspent) h.nodup fun _ => Iff.rfl
    · have hempty := hstop.resolve_right hspent
      have hlayer := h.frontier.resolve_left hspent
      rw [hempty] at hlayer
      exact h.stable (stable_of_layer hlayer.symm) rfl (.inr hempty) h.nodup fun _ => Iff.rfl
  | @query rows hfrontier hbudget hrows =>
    have hlayer := h.frontier.resolve_left (by omega)
    rw [hlayer] at hrows
    obtain ⟨hsub, hlength⟩ := hrows
    rcases hfits hlimit with hfit | hstable
    · -- the query is answered in full
      rw [h.length] at hlength
      have hperm : rows.Perm (store.matching tenant (layer store tenant nodeId n)) :=
        hsub.perm_of_length_le (by omega)
      have hends : endpoints rows =
          endpoints (store.matching tenant (layer store tenant nodeId n)) := by
        ext x
        simp only [mem_endpoints, hperm.mem_iff]
      refine ⟨?_, .inr ?_, absorb_nodup h.nodup, ?_⟩
      · rw [absorb_visited, h.visited, hends, ball_succ]
      · rw [absorb_frontier, h.visited, hends]
        show _ = ball store tenant nodeId (n + 1) \ ball store tenant nodeId n
        rw [ball_succ, Finset.union_sdiff_left]
      · intro e
        rw [mem_absorb_edges, h.edges]
        constructor
        · rintro (⟨row, hrow, he⟩ | ⟨row, hrow, he⟩)
          · exact ⟨row, edgesWithin_succ.mpr (.inl hrow), he⟩
          · exact ⟨row, edgesWithin_succ.mpr (.inr (hperm.mem_iff.mp hrow)), he⟩
        · rintro ⟨row, hrow, he⟩
          rcases edgesWithin_succ.mp hrow with hold | hnew
          · exact .inl ⟨row, hold, he⟩
          · exact .inr ⟨row, hperm.mem_iff.mpr hnew, he⟩
    · -- every row is an edge found before
      have hold : ∀ row ∈ rows, row ∈ edgesWithin store tenant nodeId n := fun row hrow =>
        hstable row (edgesWithin_succ.mpr (.inr (hsub.subset hrow)))
      have hends : endpoints rows ⊆ ball store tenant nodeId n := by
        intro x hx
        obtain ⟨row, hrow, hend⟩ := mem_endpoints.mp hx
        exact endpoints_edgesWithin n (mem_endpoints.mpr ⟨row, hold row hrow, hend⟩)
      refine h.stable hstable ?_ (.inr ?_) (absorb_nodup h.nodup) ?_
      · rw [absorb_visited, h.visited, Finset.union_eq_left.mpr hends]
      · rw [absorb_frontier, h.visited, Finset.sdiff_eq_empty_iff_subset.mpr hends]
      · intro e
        rw [mem_absorb_edges]
        refine ⟨?_, .inl⟩
        rintro (he | ⟨row, hrow, he⟩)
        · exact he
        · exact (h.edges e).mpr ⟨row, hold row hrow, he⟩

theorem Rounds.exact (hrounds : Rounds store tenant limit (.start nodeId) n s)
    (hfits : ∀ i < n, RoundFits store tenant nodeId limit i)
    (hlimit : ((edgesWithin store tenant nodeId n).length : Int) ≤ limit) :
    Exact store tenant nodeId limit n s := by
  induction hrounds with
  | zero => exact exact_start
  | @succ n t u _ hround ih =>
    have hlength := @edgesWithin_length store tenant nodeId n (n + 1)
      (Nat.le_add_right n 1)
    have ht := ih (fun i hi => hfits i (by omega)) (by omega)
    exact ht.round (hfits n (Nat.lt_succ_self n)) hlimit hround

theorem exists_round (s : SearchState) : ∃ s', Round store tenant limit s s' := by
  by_cases hstop : s.frontier = ∅ ∨ limit ≤ s.edges.length
  · exact ⟨s, .stop hstop⟩
  · obtain ⟨hfrontier, hbudget⟩ := not_or.mp hstop
    have hanswers : Answers ((store.matching tenant s.frontier).take (limit - s.edges.length).toNat)
        (store.matching tenant s.frontier) (limit - s.edges.length).toNat :=
      ⟨(List.take_sublist _ _).subperm, List.length_take⟩
    exact ⟨_, .query hfrontier (by omega) hanswers⟩

theorem exists_rounds (n : Nat) : ∃ s, Rounds store tenant limit (.start nodeId) n s := by
  induction n with
  | zero => exact ⟨_, .zero⟩
  | succ n ih =>
    obtain ⟨t, ht⟩ := ih
    obtain ⟨u, hu⟩ := @exists_round store tenant limit t
    exact ⟨u, .succ ht hu⟩

/-- A round that does not fit can lose an edge. -/
theorem Exact.loses (h : Exact store tenant nodeId limit n s)
    (hfits : ¬ RoundFits store tenant nodeId limit n) :
    ∃ row ∈ edgesWithin store tenant nodeId (n + 1), ∃ s', Round store tenant limit s s' ∧
      row.record ∉ s'.edges := by
  rw [RoundFits] at hfits
  push Not at hfits
  obtain ⟨hlimit, hover, row, hrow, hnew⟩ := hfits
  have hmatch := (edgesWithin_succ.mp hrow).resolve_left hnew
  have hbudget : (s.edges.length : Int) < limit := by
    by_contra hspent
    exact hnew (h.stable_of_spent hlimit (by omega) row hrow)
  have hlayer := h.frontier.resolve_left (by omega)
  have hfrontier : s.frontier ≠ ∅ := by
    intro hempty
    rw [hempty] at hlayer
    exact hnew (stable_of_layer hlayer.symm row hrow)
  -- the answer leaves the new row out
  obtain ⟨rows, hrows⟩ : ∃ rows, rows =
      ((store.matching tenant s.frontier).erase row).take (limit - s.edges.length).toNat := ⟨_, rfl⟩
  rw [← hlayer] at hmatch hover
  have hanswers : Answers rows (store.matching tenant s.frontier)
    (limit - s.edges.length).toNat := by
    constructor
    · rw [hrows]
      exact ((List.take_sublist _ _).trans List.erase_sublist).subperm
    · rw [hrows, List.length_take, List.length_erase_of_mem hmatch, h.length]
      omega
  refine ⟨row, hrow, _, .query hfrontier hbudget hanswers, ?_⟩
  obtain ⟨hmem, htenant, -⟩ := mem_matching.mp hmatch
  rw [mem_absorb_edges, h.edges]
  rintro (⟨row', hrow', he⟩ | ⟨row', hrow', he⟩)
  · obtain ⟨hmem', htenant', -⟩ := mem_matching.mp hrow'
    obtain rfl := record_injective hmem' hmem htenant' htenant he
    exact hnew hrow'
  · rw [hrows] at hrow'
    have herase := List.mem_of_mem_take hrow'
    have hmatch' := List.mem_of_mem_erase herase
    obtain ⟨hmem', htenant', -⟩ := mem_matching.mp hmatch'
    obtain rfl := record_injective hmem' hmem htenant' htenant he
    exact (matching_nodup _).not_mem_erase herase

end Rounds

/-! ## Completeness -/

section Completeness

variable (store : GraphStore) (tenant nodeId : String) (limit : Int)

/-- The tenant's edges with an end at a distance below `depth`, each once, and the tenant's nodes
within `depth`, each once. -/
def Complete (depth : Nat) (result : Neighborhood) : Prop :=
  (result.edges.Nodup ∧ ∀ e, e ∈ result.edges ↔ ∃ row ∈ store.edges, row.tenantRef = tenant ∧
    (∃ m < depth, Walk store tenant nodeId m row.sourceNode ∨
      Walk store tenant nodeId m row.targetNode) ∧ row.record = e) ∧
  ∃ rows : List NodeRow, result.nodes = rows.map NodeRow.record ∧ rows.Nodup ∧
    ∀ row, row ∈ rows ↔ row ∈ store.nodes ∧ row.tenantRef = tenant ∧
      ∃ m ≤ depth, Walk store tenant nodeId m row.nodeId

/-- The rows behind a result belong to the tenant. -/
def OwnRows (result : Neighborhood) : Prop :=
  (∀ e ∈ result.edges, ∃ row ∈ store.edges, row.tenantRef = tenant ∧ row.record = e) ∧
    ∀ node ∈ result.nodes, ∃ row ∈ store.nodes, row.tenantRef = tenant ∧ row.record = node

variable {store tenant nodeId limit}

theorem mem_edgesWithin {row : EdgeRow} :
    row ∈ edgesWithin store tenant nodeId n ↔ row ∈ store.edges ∧ row.tenantRef = tenant ∧
      ∃ m < n, Walk store tenant nodeId m row.sourceNode ∨
      Walk store tenant nodeId m row.targetNode := by
  rw [edgesWithin, mem_matching]
  cases n with
  | zero => simp [inner]
  | succ n =>
    rw [inner, mem_ball, mem_ball]
    refine and_congr_right fun _ => and_congr_right fun _ => ?_
    constructor
    · rintro (⟨m, hm, hwalk⟩ | ⟨m, hm, hwalk⟩)
      · exact ⟨m, by omega, .inl hwalk⟩
      · exact ⟨m, by omega, .inr hwalk⟩
    · rintro ⟨m, hm, hwalk | hwalk⟩
      · exact .inl ⟨m, by omega, hwalk⟩
      · exact .inr ⟨m, by omega, hwalk⟩

theorem mem_nodesIn {ids : Finset String} {row : NodeRow} :
    row ∈ store.nodesIn tenant ids ↔ row ∈ store.nodes ∧ row.tenantRef = tenant ∧
    row.nodeId ∈ ids := by
  simp [GraphStore.nodesIn]

theorem Exact.complete {s : SearchState} (h : Exact store tenant nodeId limit n s)
    {rows : List NodeRow} (hrows : rows.Perm (store.nodesIn tenant s.visited)) :
    Complete store tenant nodeId n ⟨nodeId, n, rows.map NodeRow.record, s.edges⟩ := by
  refine ⟨⟨h.nodup, fun e => ?_⟩, rows, rfl, ?_, fun row => ?_⟩
  · show e ∈ s.edges ↔ _
    rw [h.edges]
    constructor
    · rintro ⟨row, hrow, he⟩
      obtain ⟨hmem, htenant, hwalk⟩ := mem_edgesWithin.mp hrow
      exact ⟨row, hmem, htenant, hwalk, he⟩
    · rintro ⟨row, hmem, htenant, hwalk, he⟩
      exact ⟨row, mem_edgesWithin.mpr ⟨hmem, htenant, hwalk⟩, he⟩
  · exact hrows.nodup_iff.mpr ((List.Nodup.of_map _ store.nodes_unique).filter _)
  · rw [hrows.mem_iff, mem_nodesIn, h.visited, mem_ball]

theorem Rounds.own {s : SearchState} (h : Rounds store tenant limit (.start nodeId) n s) :
    ∀ e ∈ s.edges, ∃ row ∈ store.edges, row.tenantRef = tenant ∧ row.record = e := by
  induction h with
  | zero => exact nofun
  | succ _ hround ih =>
    cases hround with
    | stop => exact ih
    | query _ _ hrows =>
      intro e he
      rcases mem_absorb_edges.mp he with he | ⟨row, hrow, he⟩
      · exact ih e he
      · obtain ⟨hmem, htenant, -⟩ := mem_matching.mp (hrows.1.subset hrow)
        exact ⟨row, hmem, htenant, he⟩

theorem Returns.own {depth : Nat} {result : Neighborhood}
    (h : Returns store tenant limit nodeId depth result) : OwnRows store tenant result := by
  cases h with
  | of _ hrounds hrows =>
    refine ⟨hrounds.own, fun node hnode => ?_⟩
    obtain ⟨row, hrow, rfl⟩ := List.mem_map.mp hnode
    obtain ⟨hmem, htenant, -⟩ := mem_nodesIn.mp (hrows.mem_iff.mp hrow)
    exact ⟨row, hmem, htenant, rfl⟩

/-- The number of the tenant's edges with an end at a distance below `depth` is within the limit. -/
def WithinLimit (store : GraphStore) (tenant nodeId : String) (limit : Int) (depth : Nat) : Prop :=
  ((edgesWithin store tenant nodeId depth).length : Int) ≤ limit

/-- Whatever the database answers, the neighbourhood at this depth is complete if it may be. -/
def AlwaysComplete (store : GraphStore) (tenant nodeId : String) (limit : Int) (depth : Nat) :
    Prop :=
  WithinLimit store tenant nodeId limit depth →
    ∀ result, Returns store tenant limit nodeId depth result →
      Complete store tenant nodeId depth result

theorem alwaysComplete_of_fits {depth : Nat}
    (hfits : ∀ i < depth, RoundFits store tenant nodeId limit i) :
    AlwaysComplete store tenant nodeId limit depth := by
  intro hlimit result hresult
  cases hresult with
  | of _ hrounds hrows => exact (hrounds.exact hfits hlimit).complete hrows

theorem not_alwaysComplete (hn : n < 8) (hbefore : ∀ i < n, RoundFits store tenant nodeId limit i)
    (hfits : ¬ RoundFits store tenant nodeId limit n) :
    ¬ AlwaysComplete store tenant nodeId limit (n + 1) := by
  intro halways
  have hlimit : WithinLimit store tenant nodeId limit (n + 1) := by
    rw [RoundFits] at hfits
    push Not at hfits
    exact hfits.1
  have hlength := @edgesWithin_length store tenant nodeId n (n + 1) (Nat.le_add_right n 1)
  rw [WithinLimit] at hlimit
  obtain ⟨s, hs⟩ := @exists_rounds store tenant nodeId limit n
  have hexact := hs.exact hbefore (by omega)
  obtain ⟨row, hrow, s', hround, hlost⟩ := hexact.loses hfits
  have hcomplete := halways hlimit _ (.of (by omega) (.succ hs hround) (.refl _))
  refine hlost ((hcomplete.1.2 row.record).mpr ?_)
  obtain ⟨hmem, htenant, hwalk⟩ := mem_edgesWithin.mp hrow
  exact ⟨row, hmem, htenant, hwalk, rfl⟩

/-- Nothing of another tenant is ever returned, and the neighbourhoods up to a depth are complete
whatever rows the database chooses exactly when each round on the way fits the limit. -/
theorem neighborhood_complete_iff (store : GraphStore) (tenant nodeId : String) (limit : Int)
    (depth : Nat) (hdepth : depth ≤ 8) :
    (∀ d result, Returns store tenant limit nodeId d result → OwnRows store tenant result) ∧
      ((∀ d ≤ depth, AlwaysComplete store tenant nodeId limit d) ↔
        ∀ i < depth, RoundFits store tenant nodeId limit i) := by
  refine ⟨fun d result h => h.own, fun hcomplete => ?_, fun hfits d hd => ?_⟩
  · intro i
    induction i using Nat.strongRecOn with
    | _ i ih =>
      intro hi
      by_contra hbad
      exact not_alwaysComplete (by omega) (fun j hj => ih j hj (by omega)) hbad
        (hcomplete (i + 1) hi)
  · exact alwaysComplete_of_fits fun i hi => hfits i (by omega)

end Completeness

/-! ## A chain of two edges -/

def chainEdge (edgeId source target : String) : EdgeRow :=
  ⟨"T", "G", "digest", edgeId, source, target, "CALLS", "\x7b\x7d"⟩

def chainNode (nodeId : String) : NodeRow :=
  ⟨"T", "G", "digest", nodeId, "PROCEDURE", nodeId, "TECHNICAL_EVIDENCE", "OBSERVED_OR_EXTRACTED",
    "\x7b\x7d"⟩

/-- `A - B - C`. -/
def chain : GraphStore where
  nodes := ["A", "B", "C"].map chainNode
  edges := [chainEdge "E1" "A" "B", chainEdge "E2" "B" "C"]
  nodes_unique := by decide +kernel
  edges_unique := by decide +kernel

instance {limit : Int} {n : Nat} : Decidable (RoundFits chain "T" "A" limit n) :=
  inferInstanceAs (Decidable (_ → _ ∨ _))

/-- Both edges fit a limit of two, but the second round may answer with the first edge again. -/
theorem chain_loses_edge : WithinLimit chain "T" "A" 2 2 ∧ ¬ AlwaysComplete chain "T" "A" 2 2 := by
  have hlimit : ((edgesWithin chain "T" "A" 2).length : Int) ≤ 2 := by decide +kernel
  refine ⟨hlimit, not_alwaysComplete (by decide) ?_ (by decide +kernel)⟩
  intro i hi
  obtain rfl : i = 0 := by omega
  decide +kernel

/-- With a limit of three the chain is found. -/
theorem neighborhood_complete_iff_chain : AlwaysComplete chain "T" "A" 3 2 := by
  refine (neighborhood_complete_iff chain "T" "A" 3 2 (by decide)).2.mpr (fun i hi => ?_) 2 le_rfl
  have hcases : i = 0 ∨ i = 1 := by omega
  rcases hcases with rfl | rfl
  · decide +kernel
  · decide +kernel

end AtlasDb.Graph
