import AtlasDb.Analysis.ReachingPaths
import AtlasDb.Analysis.Transaction

/-!
# First boundaries and paths

`_first_boundaries` visits every node at most twice: once as the source of the change and once as an
ordinary node. What it finds is nevertheless said of all paths of the graph, also of those that come
back to the source: an outcome is found exactly when some path that leaves the source by an edge
other than one of its handlers meets a boundary with this outcome before any other
(`firstBoundaries_exact`).
-/

namespace AtlasDb.Analysis

open Core Lib Parsing

section

variable (kinds : NodeRef → Option StatementKind) (commitOnReturn : CommitOnReturn)
  (contract : Option CallerTransactionContract)

/-- The outcome of a boundary, for a path that has left the source. -/
def boundaryAt (r : CfgRef) : Option TransactionPathOutcome :=
  boundaryOutcome kinds commitOnReturn contract (r, false)

/-- The path leaves its source by an edge that is not a handler edge, and passes no boundary before
its end. -/
structure Leaves (edges : List CfgEdge) (source r : CfgRef) (path : List CfgEdge) : Prop where
  walk : EdgePath edges source path r
  first : ∃ e, path.head? = some e ∧ e.kind ≠ .handler
  passes : ∀ e ∈ path.dropLast, boundaryAt kinds commitOnReturn contract e.target = none

/-- The first boundary of the path stands at its end. -/
def MeetsFirst (edges : List CfgEdge) (source r : CfgRef) (o : TransactionPathOutcome) : Prop :=
  ∃ path, Leaves kinds commitOnReturn contract edges source r path ∧
    boundaryAt kinds commitOnReturn contract r = some o

/-- The turns after which the loop of `_first_boundaries` is over. -/
def boundaryTurns (edges : List CfgEdge) : Nat := 2 * (edges.length + 1) * edges.length + 1

end

section

variable {kinds : NodeRef → Option StatementKind} {commitOnReturn : CommitOnReturn}
  {contract : Option CallerTransactionContract} {edges : List CfgEdge} {source r : CfgRef}
  {path : List CfgEdge} {e : CfgEdge}

theorem EdgePath.nil_inv {first last : CfgRef} (h : EdgePath edges first [] last) :
    first = last := by
  generalize hpath : ([] : List CfgEdge) = es at h
  cases h with
  | nil => rfl
  | cons => cases hpath

theorem EdgePath.last_target (h : EdgePath edges source (path ++ [e]) r) : e.target = r := by
  obtain ⟨node, -, hlast⟩ := h.split
  exact hlast.cons_inv.2.2.nil_inv

theorem mem_searchSuccessors {s t : SearchState} :
    t ∈ searchSuccessors kinds commitOnReturn contract edges s ↔
      boundaryOutcome kinds commitOnReturn contract s = none ∧
        ∃ e ∈ edges, e.source = s.1 ∧ (s.2 = false ∨ e.kind ≠ .handler) ∧
        t = (e.target, false) := by
  unfold searchSuccessors
  constructor
  · intro h
    split at h
    · cases h
    · next hnone =>
        obtain ⟨e, he, rfl⟩ := List.mem_map.mp h
        obtain ⟨hmem, hcond⟩ := List.mem_filter.mp he
        refine ⟨by simpa using hnone, e, hmem, ?_⟩
        simpa using hcond
  · rintro ⟨hnone, e, he, hsource, hkind, rfl⟩
    rw [if_neg (by simp [hnone])]
    refine List.mem_map.mpr ⟨e, List.mem_filter.mpr ⟨he, ?_⟩, rfl⟩
    simpa [hsource] using hkind

theorem Leaves.snoc (h : Leaves kinds commitOnReturn contract edges source e.source path)
    (he : e ∈ edges) (hnone : boundaryAt kinds commitOnReturn contract e.source = none) :
    Leaves kinds commitOnReturn contract edges source e.target (path ++ [e]) := by
  obtain ⟨first, hfirst, hkind⟩ := h.first
  refine ⟨h.walk.snoc he, ⟨first, ?_, hkind⟩, ?_⟩
  · rw [List.head?_append, hfirst, Option.some_or]
  · rw [List.dropLast_concat]
    intro e' he'
    rcases path.eq_nil_or_concat with rfl | ⟨before, last, rfl⟩
    · cases he'
    rw [List.concat_eq_append] at h he'
    rcases List.mem_append.mp he' with he' | he'
    · exact h.passes e' (by rwa [List.dropLast_concat])
    · obtain rfl := List.mem_singleton.mp he'
      rwa [h.walk.last_target]

theorem reached_leaves {s : SearchState}
    (h : Relation.ReflTransGen
      (fun a b => b ∈ searchSuccessors kinds commitOnReturn contract edges a) (source, true) s) :
    s = (source, true) ∨
      s.2 = false ∧ ∃ path, Leaves kinds commitOnReturn contract edges source s.1 path := by
  induction h with
  | refl => exact .inl rfl
  | tail _ hstep ih =>
    obtain ⟨hnone, e, he, hsource, hkind, rfl⟩ := mem_searchSuccessors.mp hstep
    refine .inr ⟨rfl, ?_⟩
    rcases ih with rfl | ⟨hordinary, path, hpath⟩
    · obtain rfl : e.source = source := hsource
      exact ⟨[e], .cons he (.nil _), ⟨e, rfl, hkind.resolve_left (by simp)⟩, by simp⟩
    · rw [← hsource] at hpath
      refine ⟨path ++ [e], hpath.snoc he ?_⟩
      rw [boundaryAt, hsource, ← hordinary]
      exact hnone

theorem reach_of_walk {first : CfgRef} (h : EdgePath edges first path r)
    (hpasses : ∀ e ∈ path.dropLast, boundaryAt kinds commitOnReturn contract e.target = none)
    (hfirst : path ≠ [] → boundaryAt kinds commitOnReturn contract first = none) :
    Relation.ReflTransGen (fun a b => b ∈ searchSuccessors kinds commitOnReturn contract edges a)
      (first, false) (r, false) := by
  induction h with
  | nil node => exact .refl
  | @cons e es r he hrest ih =>
    have hstep : (e.target, false) ∈
        searchSuccessors kinds commitOnReturn contract edges (e.source, false) :=
      mem_searchSuccessors.mpr ⟨hfirst (List.cons_ne_nil _ _), e, he, rfl, .inl rfl, rfl⟩
    refine .head hstep (ih (fun e' he' => ?_) fun hne => ?_)
    · cases es with
      | nil => cases he'
      | cons f fs => exact hpasses e' (List.mem_cons_of_mem _ he')
    · cases es with
      | nil => exact absurd rfl hne
      | cons f fs => exact hpasses e List.mem_cons_self

theorem leaves_reached
    (hsource : boundaryOutcome kinds commitOnReturn contract (source, true) = none)
    (h : Leaves kinds commitOnReturn contract edges source r path) :
    Relation.ReflTransGen (fun a b => b ∈ searchSuccessors kinds commitOnReturn contract edges a)
      (source, true) (r, false) := by
  obtain ⟨first, hfirst, hkind⟩ := h.first
  cases path with
  | nil => cases hfirst
  | cons e es =>
    obtain rfl := Option.some.inj hfirst
    obtain ⟨rfl, he, hrest⟩ := h.walk.cons_inv
    have hstep : (e.target, false) ∈
        searchSuccessors kinds commitOnReturn contract edges (e.source, true) :=
      mem_searchSuccessors.mpr ⟨hsource, e, he, rfl, .inr hkind, rfl⟩
    refine .head hstep (reach_of_walk hrest (fun e' he' => ?_) fun hne => ?_)
    · cases es with
      | nil => cases he'
      | cons f fs => exact h.passes e' (List.mem_cons_of_mem _ he')
    · cases es with
      | nil => exact absurd rfl hne
      | cons f fs => exact h.passes e List.mem_cons_self

theorem visited_boundary_iff
    (hsource : boundaryOutcome kinds commitOnReturn contract (source, true) = none)
    {o : TransactionPathOutcome} :
    (∃ s ∈ visitedStates kinds commitOnReturn contract edges source, s.1 = r ∧
        boundaryOutcome kinds commitOnReturn contract s = some o) ↔
      MeetsFirst kinds commitOnReturn contract edges source r o := by
  constructor
  · rintro ⟨s, hs, rfl, ho⟩
    rcases reached_leaves (mem_visitedStates_iff.mp hs) with rfl | ⟨hordinary, path, hpath⟩
    · rw [hsource] at ho
      cases ho
    · refine ⟨path, hpath, ?_⟩
      rw [boundaryAt, ← hordinary]
      exact ho
  · rintro ⟨path, hpath, ho⟩
    exact ⟨(r, false), mem_visitedStates_iff.mpr (leaves_reached hsource hpath), rfl, ho⟩

theorem boundaryOutcome_source (hnormal : source ≠ .normalExit)
    (hexceptional : source ≠ .exceptionalExit) :
    boundaryOutcome kinds commitOnReturn contract (source, true) = none := by
  cases source with
  | normalExit => exact absurd rfl hnormal
  | exceptionalExit => exact absurd rfl hexceptional
  | _ => rfl

end

/-- **The search for the first boundaries.** It comes to an end, its outcomes are those of the
boundaries that paths which leave the source meet first, and its boundaries are these. -/
theorem firstBoundaries_exact (kinds : NodeRef → Option StatementKind)
    (commitOnReturn : CommitOnReturn)
    (contract : Option CallerTransactionContract) (edges : List CfgEdge) (source : CfgRef)
    (hnormal : source ≠ .normalExit) (hexceptional : source ≠ .exceptionalExit) :
    (∀ extra, search (searchSuccessors kinds commitOnReturn contract edges)
        (boundaryTurns edges + extra) [(source, true)] [] =
      visitedStates kinds commitOnReturn contract edges source) ∧
    (∀ o, o ∈ (firstBoundaries kinds commitOnReturn contract edges source).1 ↔
      ∃ r, MeetsFirst kinds commitOnReturn contract edges source r o) ∧
    ∀ r, r ∈ (firstBoundaries kinds commitOnReturn contract edges source).2 ↔
      ∃ o, MeetsFirst kinds commitOnReturn contract edges source r o := by
  have hsource : boundaryOutcome kinds commitOnReturn contract (source, true) = none :=
    boundaryOutcome_source hnormal hexceptional
  refine ⟨?_, fun o => ?_, fun r => ?_⟩
  · intro extra
    obtain ⟨domain, hclosed, hstart, hfuel⟩ := exists_searchDomain edges source
    exact search_fuel extra hclosed (by simpa using hstart) hfuel
  · show o ∈ List.filterMap _ _ ↔ _
    rw [List.mem_filterMap]
    constructor
    · rintro ⟨s, hs, ho⟩
      exact ⟨s.1, (visited_boundary_iff hsource).mp ⟨s, hs, rfl, ho⟩⟩
    · rintro ⟨r, hmeets⟩
      obtain ⟨s, hs, -, ho⟩ := (visited_boundary_iff hsource).mpr hmeets
      exact ⟨s, hs, ho⟩
  · show r ∈ List.map _ (List.filter _ _) ↔ _
    rw [List.mem_map]
    constructor
    · rintro ⟨s, hs, rfl⟩
      obtain ⟨hs, hsome⟩ := List.mem_filter.mp hs
      obtain ⟨o, ho⟩ := Option.isSome_iff_exists.mp hsome
      exact ⟨o, (visited_boundary_iff hsource).mp ⟨s, hs, rfl, ho⟩⟩
    · rintro ⟨o, hmeets⟩
      obtain ⟨s, hs, rfl, ho⟩ := (visited_boundary_iff hsource).mpr hmeets
      exact ⟨s, List.mem_filter.mpr ⟨hs, Option.isSome_iff_exists.mpr ⟨o, ho⟩⟩, rfl⟩

/-- An update that is made again in a loop, until it is committed or fails. -/
def updateLoop : List CfgEdge :=
  [{ source := .ast "update", target := .ast "update", kind := .loopBody },
   { source := .ast "update", target := .ast "commit", kind := .loopExit },
   { source := .ast "update", target := .exceptionalExit, kind := .handler }]

/-- The first update does not fail, but the second one may. -/
theorem firstBoundaries_exact_updateLoop :
    ∃ r, MeetsFirst (fun ref => if ref = "commit" then some .commit else some .dml) .no
    none updateLoop
      (.ast "update") r .exceptionalEscape := by
  have hexact :=
    firstBoundaries_exact (fun ref => if ref = "commit" then some .commit else some .dml)
    .no none updateLoop (.ast "update") (by decide) (by decide)
  exact (hexact.2.1 .exceptionalEscape).mp (by decide)

end AtlasDb.Analysis
