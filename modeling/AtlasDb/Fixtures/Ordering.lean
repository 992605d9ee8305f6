import AtlasDb.Fixtures.Rows

/-!
# The order of the tables

The loop of `compile` that orders the selected tables: it takes the tables that wait for no parent,
removes them from what the others wait for, and stops when nothing is left or nothing can be taken.
-/

namespace AtlasDb.Fixtures

open Core Lib

namespace FixtureRequest

variable [Text.CaseMap] (request : FixtureRequest)

/-- `parent` is a selected table that a foreign key of the selected table `ref` refers to. -/
def Parent (ref parent : String) : Prop :=
  ∃ relation fk, request.selected.lookup ref = some relation ∧ fk ∈ relation.foreignKeys ∧
    fk.parent relation = parent ∧ request.isSelected parent = true

/-- The foreign keys lead back from a table to itself. -/
def Cyclic : Prop := ∃ ref, Relation.TransGen request.Parent ref ref

/-- `remaining` before the loop. -/
def remaining : List (String × List String) :=
  request.selected.map fun entry => (entry.1, request.dependencies entry.2)

/-- The loop, for so many turns: `ordered`, and whether it ends with the blocker of a cycle. -/
def orderTables (turns : Nat) : Option (List String × Bool) :=
  takeLayers sorted turns [] request.remaining

variable {request}

theorem isSelected_iff {ref : String} :
    request.isSelected ref = true ↔ ref ∈ request.selected.map Prod.fst := by
  rw [isSelected, Option.isSome_iff_exists]
  constructor
  · rintro ⟨relation, hrelation⟩
    exact List.mem_map.mpr ⟨(ref, relation), mem_of_lookup hrelation, rfl⟩
  · intro hmem
    obtain ⟨⟨_, relation⟩, hentry, rfl⟩ := List.mem_map.mp hmem
    exact ⟨relation, lookup_of_mem_of_nodup selected_nodup hentry⟩

theorem needs_iff {ref parent : String} :
    Needs request.remaining ref parent ↔ request.Parent ref parent := by
  constructor
  · rintro ⟨_, hentry, hdep⟩
    obtain ⟨⟨_, relation⟩, hmem, heq⟩ := List.mem_map.mp hentry
    obtain ⟨rfl, rfl⟩ := Prod.mk.inj heq
    obtain ⟨fk, hfk, rfl⟩ := List.mem_map.mp hdep
    obtain ⟨hfk, hselected⟩ := List.mem_filter.mp hfk
    exact ⟨relation, fk, lookup_of_mem_of_nodup selected_nodup hmem, hfk, rfl, hselected⟩
  · rintro ⟨relation, fk, hrelation, hfk, rfl, hselected⟩
    refine ⟨request.dependencies relation, ?_, ?_⟩
    · exact List.mem_map.mpr ⟨(ref, relation), mem_of_lookup hrelation, rfl⟩
    · exact List.mem_map.mpr ⟨fk, List.mem_filter.mpr ⟨hfk, hselected⟩, rfl⟩

theorem needs_eq : Needs request.remaining = request.Parent :=
  funext fun _ => funext fun _ => propext needs_iff

theorem remaining_nodup : (request.remaining.map Prod.fst).Nodup := by
  rw [remaining, ordering_keys]
  exact selected_nodup

theorem remaining_closed (ref parent : String) (h : Needs request.remaining ref parent) :
    parent ∈ request.remaining.map Prod.fst := by
  obtain ⟨_, _, -, -, -, hselected⟩ := needs_iff.mp h
  rw [remaining, ordering_keys]
  exact isSelected_iff.mp hselected

theorem length_remaining : request.remaining.length = request.selected.length := List.length_map _

theorem cyclic_iff : request.ordering.2 = true ↔ request.Cyclic := by
  have h :=
    layers_stuck_iff sorted_perm length_remaining.le (@remaining_nodup _ request) remaining_closed
  rwa [needs_eq] at h

theorem mem_ordered_iff {ref : String} :
    ref ∈ request.ordered ↔ request.isSelected ref = true ∧
      ¬ ∃ c, Relation.ReflTransGen request.Parent ref c ∧ Relation.TransGen request.Parent c c := by
  have h := @mem_layers_iff _ _ _ _ sorted_perm _ length_remaining.le (@remaining_nodup _ request)
    remaining_closed ref
  rw [needs_eq, remaining, ordering_keys, ← isSelected_iff] at h
  exact h

/-! ## What blocks -/

theorem columnPlan_ne_cycle {ref : String} {relation : RelationDefinition} {seed : Nat}
    {column : ColumnDefinition} :
    request.columnPlan ref relation seed column ≠ .block .foreignKeyCycle := by
  unfold columnPlan
  dsimp only
  repeat' split
  all_goals nofun

variable {rows : List (String × Row)}

omit [Text.CaseMap] in
theorem cycle_not_mem_run {ref name : String} {plan : ColumnPlan}
    {state : Row × List Blocker} (hplan : plan ≠ .block .foreignKeyCycle)
    (hstate : Blocker.foreignKeyCycle ∉ state.2) :
    Blocker.foreignKeyCycle ∉ (plan.run rows ref name state).2 := by
  obtain ⟨row, blockers⟩ := state
  cases plan with
  | skip => exact hstate
  | write value => exact hstate
  | inherit parentRef parentColumn =>
    unfold ColumnPlan.run
    dsimp only
    split
    · simpa using hstate
    · exact hstate
  | block blocker =>
    have hne : Blocker.foreignKeyCycle ≠ blocker := fun h => hplan (by rw [h])
    simpa [ColumnPlan.run] using ⟨hstate, hne⟩

theorem cycle_not_mem_buildRow {ref : String} {relation : RelationDefinition} {seed : Nat} :
    Blocker.foreignKeyCycle ∉ (request.buildRow rows ref relation seed).2 := by
  rw [buildRow]
  have hfold (columns : List ColumnDefinition) (state : Row × List Blocker)
      (hstate : Blocker.foreignKeyCycle ∉ state.2) :
      Blocker.foreignKeyCycle ∉ (columns.foldl (fun state column =>
        (request.columnPlan ref relation seed column).run rows ref
          (Text.uppercased column.columnName) state) state).2 := by
    induction columns generalizing state with
    | nil => exact hstate
    | cons column columns ih => exact ih _ (cycle_not_mem_run columnPlan_ne_cycle hstate)
  exact hfold _ _ List.not_mem_nil

theorem cycle_not_mem_buildRows {seed : Nat} {refs : List String} :
    Blocker.foreignKeyCycle ∉ (request.buildRows seed refs rows).2 := by
  induction refs generalizing seed rows with
  | nil => exact List.not_mem_nil
  | cons ref refs ih =>
    rw [buildRows]
    cases request.selected.lookup ref with
    | none => exact ih
    | some relation =>
      dsimp only
      have hcheck : Blocker.foreignKeyCycle ∉ request.checkBlockers ref relation := by
        simp [checkBlockers]
      have hcleanup (row : Row) : Blocker.foreignKeyCycle ∉ relation.cleanupBlockers ref row := by
        unfold RelationDefinition.cleanupBlockers
        split
        · simp
        split
        · simp
        · exact List.not_mem_nil
      simp only [List.mem_append, not_or]
      exact ⟨⟨⟨hcheck, cycle_not_mem_buildRow⟩, hcleanup _⟩, ih⟩

theorem cycle_mem_blockers_iff : Blocker.foreignKeyCycle ∈ request.blockers ↔ request.Cyclic := by
  have hselection : Blocker.foreignKeyCycle ∉ request.selectionBlockers := by
    rw [selectionBlockers, List.mem_filterMap]
    rintro ⟨ref, -, h⟩
    repeat' split at h
    all_goals cases h
  rw [← cyclic_iff, blockers, List.mem_append, List.mem_append, or_iff_left cycle_not_mem_buildRows,
    or_iff_right hselection]
  cases request.ordering.2 with
  | true => simp
  | false => simp

/-- **The order of the tables**: the loop ends. Without a cycle it lists every selected table once,
each behind its parents, and adds no blocker; with a cycle it adds the blocker and lists the tables
from which no cycle is reached along the parents. -/
theorem orderTables_topological (request : FixtureRequest) :
    (∃ turns, ∀ more,
      request.orderTables (turns + more) = some (request.ordered, request.ordering.2)) ∧
    (¬ request.Cyclic →
      request.ordered.Nodup ∧ (∀ ref, ref ∈ request.ordered ↔ request.isSelected ref = true) ∧
        (∀ before ref after parent, request.ordered = before ++ ref :: after →
          request.Parent ref parent → parent ∈ before) ∧
        Blocker.foreignKeyCycle ∉ request.blockers) ∧
    (request.Cyclic →
      Blocker.foreignKeyCycle ∈ request.blockers ∧
        ∀ ref, ref ∈ request.ordered ↔ request.isSelected ref = true ∧
          ¬ ∃ c, Relation.ReflTransGen request.Parent ref c ∧
          Relation.TransGen request.Parent c c) := by
  refine ⟨⟨request.selected.length + 1, fun more => ?_⟩, fun hfree => ?_, fun hcyclic => ?_⟩
  · have hturns : request.remaining.length ≤ request.selected.length + more := by
      rw [length_remaining]
      exact Nat.le_add_right _ _
    have hsame : layers sorted (request.selected.length + more) request.remaining =
        layers sorted request.selected.length request.remaining :=
      layers_fuel_le sorted_perm length_remaining.le (Nat.le_add_right _ _)
    rw [orderTables, Nat.add_right_comm, takeLayers_eq sorted_perm hturns remaining_nodup,
      List.nil_append, hsame]
    rfl
  · have hordering : request.ordering.2 = false := by
      rw [← Bool.not_eq_true, cyclic_iff]
      exact hfree
    refine ⟨ordered_nodup hordering, fun ref => ?_, ?_, fun h =>
      hfree (cycle_mem_blockers_iff.mp h)⟩
    · rw [(ordered_perm hordering).mem_iff, isSelected_iff]
    · rintro before ref after _ hsplit ⟨relation, fk, hrelation, hfk, rfl, hparent⟩
      exact parent_before hsplit hrelation hfk hparent
  · exact ⟨cycle_mem_blockers_iff.mpr hcyclic, fun ref => mem_ordered_iff⟩

end FixtureRequest

end AtlasDb.Fixtures
