import AtlasDb.Graph.Store

/-!
# Ingestion

The tables after any number of calls of `ingest`, by any tenants. The first row of a key stays, so a
stored row is never changed; and, as rows of one key come from graphs of one digest, neither the
order of the calls nor how often a graph comes again shows in the tables (`ingestions_converge`).
-/

namespace AtlasDb.Graph

/-! ## First come, first kept -/

section

variable {α β κ : Type} [DecidableEq κ] {key : α → κ}

theorem prefix_foldl_insertOrIgnore (news rows : List α) :
    rows <+: news.foldl (insertOrIgnore key) rows := by
  induction news generalizing rows with
  | nil => exact List.prefix_rfl
  | cons row news ih =>
    apply List.IsPrefix.trans _ (ih _)
    unfold insertOrIgnore
    split
    · exact List.prefix_rfl
    · exact List.prefix_append rows [row]

/-- A row is there afterwards when it was there before, or is the first one of a new key. -/
theorem mem_foldl_insertOrIgnore {news rows : List α} {r : α} :
    r ∈ news.foldl (insertOrIgnore key) rows ↔
      r ∈ rows ∨ key r ∉ rows.map key ∧ news.find? (fun x => key x = key r) = some r := by
  induction news generalizing rows with
  | nil => simp
  | cons row news ih =>
    rw [List.foldl_cons, ih, insertOrIgnore]
    split
    · next hknown =>
        apply or_congr_right
        apply and_congr_right
        intro hnew
        have hne : key row ≠ key r := by
          intro heq
          exact hnew (heq ▸ hknown)
        rw [List.find?_cons_of_neg (by simpa using hne)]
    · next hunknown =>
        by_cases hkey : key row = key r
        · rw [List.find?_cons_of_pos (by simpa using hkey)]
          rw [hkey] at hunknown
          grind
        · rw [List.find?_cons_of_neg (by simpa using hkey)]
          grind

/-- When the batches that have such rows are one batch, its first such row is the first of all. -/
theorem find?_flatMap_iff {f : β → List α} {p : α → Bool} {batches : List β} {r : α}
    (hone : ∀ a ∈ batches, ∀ b ∈ batches, ∀ x ∈ f a, ∀ y ∈ f b, p x = true → p y = true → a = b) :
    (batches.flatMap f).find? p = some r ↔ ∃ a ∈ batches, (f a).find? p = some r := by
  rw [List.find?_flatMap]
  constructor
  · exact List.exists_of_findSome?_eq_some
  · rintro ⟨a, ha, hr⟩
    cases hfirst : batches.findSome? fun x => (f x).find? p with
    | none => rw [List.findSome?_eq_none_iff.mp hfirst a ha] at hr; cases hr
    | some r' =>
      obtain ⟨b, hb, hr'⟩ := List.exists_of_findSome?_eq_some hfirst
      have heq := hone b hb a ha r' (List.mem_of_find?_eq_some hr') r (List.mem_of_find?_eq_some hr)
        (List.find?_some hr') (List.find?_some hr)
      rwa [heq, hr, eq_comm] at hr'

/-- What batches without common keys leave depends on which batches there are. -/
theorem foldl_insertOrIgnore_perm {f : β → List α} {batches batches' : List β} {rows : List α}
    (h : ∀ a, a ∈ batches ↔ a ∈ batches') (hrows : (rows.map key).Nodup)
    (hone : ∀ a ∈ batches, ∀ b ∈ batches, ∀ x ∈ f a, ∀ y ∈ f b, key x = key y → a = b) :
    ((batches.flatMap f).foldl (insertOrIgnore key) rows).Perm
      ((batches'.flatMap f).foldl (insertOrIgnore key) rows) := by
  apply (List.perm_ext_iff_of_nodup (foldl_insertOrIgnore_unique _ hrows).of_map
    (foldl_insertOrIgnore_unique _ hrows).of_map).mpr
  intro r
  rw [mem_foldl_insertOrIgnore, mem_foldl_insertOrIgnore, find?_flatMap_iff, find?_flatMap_iff]
  · simp only [h]
  · intro a ha b hb x hx y hy hxr hyr
    apply hone a ((h a).mpr ha) b ((h b).mpr hb) x hx y hy
    rw [of_decide_eq_true hxr, of_decide_eq_true hyr]
  · intro a ha b hb x hx y hy hxr hyr
    apply hone a ha b hb x hx y hy
    rw [of_decide_eq_true hxr, of_decide_eq_true hyr]

end

/-! ## Runs -/

section

variable (digestOf : ProcedureKnowledgeGraph → String)

/-- The tables after a call, by its tenant. One that raises changes nothing. -/
def GraphStore.called (store : GraphStore) (call : String × ProcedureKnowledgeGraph) : GraphStore :=
  (ingest digestOf call.1 store call.2).toOption.getD store

def GraphStore.after (store : GraphStore) (calls : List (String × ProcedureKnowledgeGraph)) :
    GraphStore :=
  calls.foldl (GraphStore.called digestOf) store

/-- The calls that do not raise. -/
def accepted (calls : List (String × ProcedureKnowledgeGraph)) :
    List (String × ProcedureKnowledgeGraph) :=
  calls.filter fun call => digestOf call.2 = call.2.contentDigest

def nodeRows (call : String × ProcedureKnowledgeGraph) : List NodeRow :=
  call.2.nodes.map (nodeRow call.1 call.2)

def edgeRows (call : String × ProcedureKnowledgeGraph) : List EdgeRow :=
  call.2.edges.map (edgeRow call.1 call.2)

variable {digestOf}

theorem called_tables (store : GraphStore) (call : String × ProcedureKnowledgeGraph) :
    (store.called digestOf call).nodes =
        ((accepted digestOf [call]).flatMap nodeRows).foldl (insertOrIgnore NodeRow.key)
        store.nodes ∧
      (store.called digestOf call).edges =
        ((accepted digestOf [call]).flatMap edgeRows).foldl (insertOrIgnore EdgeRow.key)
        store.edges := by
  unfold GraphStore.called ingest accepted
  split
  · next hdigest =>
      rw [List.filter_cons_of_neg (by simpa using hdigest)]
      exact ⟨rfl, rfl⟩
  · next hdigest =>
      rw [List.filter_cons_of_pos (by simpa using hdigest)]
      simp [Except.toOption, nodeRows, edgeRows]

theorem after_tables (store : GraphStore) (calls : List (String × ProcedureKnowledgeGraph)) :
    (store.after digestOf calls).nodes =
        ((accepted digestOf calls).flatMap nodeRows).foldl (insertOrIgnore NodeRow.key)
        store.nodes ∧
      (store.after digestOf calls).edges =
        ((accepted digestOf calls).flatMap edgeRows).foldl (insertOrIgnore EdgeRow.key)
        store.edges := by
  induction calls generalizing store with
  | nil => exact ⟨rfl, rfl⟩
  | cons call calls ih =>
    have hsplit : accepted digestOf (call :: calls) = accepted digestOf [call] ++
      accepted digestOf calls :=
      List.filter_append [call] calls
    rw [hsplit, List.flatMap_append, List.flatMap_append, List.foldl_append, List.foldl_append,
      ← (called_tables store call).1, ← (called_tables store call).2]
    exact ih _

/-- **Ingestions converge.** No stored row is changed; and when the accepted graphs are told apart
by their digests, calls of the same graphs by the same tenants leave the same rows, in whatever
order and however often they are made. -/
theorem ingestions_converge (store : GraphStore) (calls : List (String × ProcedureKnowledgeGraph)) :
    (store.nodes <+: (store.after digestOf calls).nodes ∧
      store.edges <+: (store.after digestOf calls).edges) ∧
    ∀ calls', (∀ call, call ∈ calls ↔ call ∈ calls') →
      (∀ a ∈ accepted digestOf calls, ∀ b ∈ accepted digestOf calls,
        a.2.contentDigest = b.2.contentDigest → a.2 = b.2) →
      (store.after digestOf calls).nodes.Perm (store.after digestOf calls').nodes ∧
        (store.after digestOf calls).edges.Perm (store.after digestOf calls').edges := by
  obtain ⟨hnodes, hedges⟩ := @after_tables digestOf store calls
  constructor
  · rw [hnodes, hedges]
    exact ⟨prefix_foldl_insertOrIgnore _ _, prefix_foldl_insertOrIgnore _ _⟩
  · intro calls' hsame hdigests
    obtain ⟨hnodes', hedges'⟩ := @after_tables digestOf store calls'
    rw [hnodes, hedges, hnodes', hedges']
    have haccepted (call : String × ProcedureKnowledgeGraph) :
        call ∈ accepted digestOf calls ↔ call ∈ accepted digestOf calls' := by
      rw [accepted, accepted, List.mem_filter, List.mem_filter, hsame]
    -- a key has the tenant and the digest of the graph
    constructor
    · apply foldl_insertOrIgnore_perm haccepted store.nodes_unique
      rintro a ha b hb x hx y hy hkey
      obtain ⟨n, -, rfl⟩ := List.mem_map.mp hx
      obtain ⟨m, -, rfl⟩ := List.mem_map.mp hy
      simp only [NodeRow.key, nodeRow, Prod.mk.injEq] at hkey
      exact Prod.ext hkey.1 (hdigests a ha b hb hkey.2.2.1)
    · apply foldl_insertOrIgnore_perm haccepted store.edges_unique
      rintro a ha b hb x hx y hy hkey
      obtain ⟨n, -, rfl⟩ := List.mem_map.mp hx
      obtain ⟨m, -, rfl⟩ := List.mem_map.mp hy
      simp only [EdgeRow.key, edgeRow, Prod.mk.injEq] at hkey
      exact Prod.ext hkey.1 (hdigests a ha b hb hkey.2.2.1)

end

def noRows : GraphStore := ⟨[], [], List.nodup_nil, List.nodup_nil⟩

/-- A graph of one node with its name for a digest. -/
def namedGraph (name : String) : ProcedureKnowledgeGraph :=
  ⟨name, [⟨name, "PROCEDURE", name, "A", "B", "\x7b\x7d"⟩], [], name⟩

/-- Two graphs, one of them ingested twice. -/
theorem repeated_graph_converges :
    (noRows.after ProcedureKnowledgeGraph.graphId
      [("t", namedGraph "P"), ("t", namedGraph "Q")]).nodes.Perm
      (noRows.after ProcedureKnowledgeGraph.graphId
        [("t", namedGraph "Q"), ("t", namedGraph "P"), ("t", namedGraph "Q")]).nodes := by
  apply ((ingestions_converge noRows _).2 _ _ _).1
  · simp only [List.mem_cons, List.not_mem_nil]
    tauto
  · intro a ha b hb heq
    have hgraph {call : String × ProcedureKnowledgeGraph} (h : call ∈ accepted
        ProcedureKnowledgeGraph.graphId [("t", namedGraph "P"), ("t", namedGraph "Q")]) :
        call.2 = namedGraph call.2.contentDigest := by
      rcases List.mem_cons.mp (List.mem_filter.mp h).1 with rfl | h
      · rfl
      · rw [List.mem_singleton.mp h]
        rfl
    rw [hgraph ha, hgraph hb, heq]

end AtlasDb.Graph
