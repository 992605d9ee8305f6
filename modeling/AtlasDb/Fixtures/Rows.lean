import AtlasDb.Fixtures.Compiler
import Mathlib.Data.List.Induction

/-!
# The rows of a request

When nothing blocks, the rows come in the order of the tables, parents first, and what stands in a
row can be told from the catalog and the approvals: `Given` follows a value from the column along
foreign keys to the approval, the NULL or the synthetic value it goes back to.
-/

namespace AtlasDb.Fixtures

open Core Lib

variable {relation : RelationDefinition} {ref : String} {rows : List (String × Row)}

namespace FixtureRequest

/-! ## Selection and order -/

theorem nodup_eraseDups (texts : List String) : texts.eraseDups.Nodup := by
  induction hn : texts.length using Nat.strongRecOn generalizing texts with
  | _ n ih =>
    cases texts with
    | nil => simp
    | cons text texts =>
      rw [List.eraseDups_cons, List.nodup_cons]
      refine ⟨?_, ih _ ?_ _ rfl⟩
      · rw [List.mem_eraseDups]
        simp
      · have hle := List.length_filter_le (fun b => !b == text) texts
        simp only [List.length_cons] at hn
        omega

theorem sorted_perm (texts : List String) : (sorted texts).Perm texts :=
  List.mergeSort_perm texts _

variable [Text.CaseMap] {request : FixtureRequest}

theorem selected_sublist : (request.selected.map Prod.fst).Sublist request.requested := by
  rw [selected, List.map_filterMap]
  generalize request.requested = refs
  induction refs with
  | nil => simp
  | cons ref refs ih =>
    rw [List.filterMap_cons]
    split
    · exact ih.cons ref
    · rename_i other hother
      obtain rfl : other = ref := by
        cases hrel : request.relationAt ref with
        | none => simp [hrel] at hother
        | some r =>
          by_cases htable : r.relationKind = .table
          · simpa [hrel, htable] using hother.symm
          · simp [hrel, htable] at hother
      exact ih.cons_cons other

theorem selected_nodup : (request.selected.map Prod.fst).Nodup :=
  selected_sublist.nodup (nodup_eraseDups _)

theorem ordering_keys :
    (request.selected.map fun entry => (entry.1, request.dependencies entry.2)).map Prod.fst =
      request.selected.map Prod.fst := by
  simp

theorem ordered_perm (hfree : request.ordering.2 = false) :
    request.ordered.Perm (request.selected.map Prod.fst) := by
  have hperm := layers_perm sorted_perm hfree
  rw [ordering_keys] at hperm
  exact hperm

theorem ordered_nodup (hfree : request.ordering.2 = false) : request.ordered.Nodup :=
  (ordered_perm hfree).nodup_iff.mpr selected_nodup

theorem parent_before {before after : List String} {fk : ForeignKeyDefinition}
    (hsplit : request.ordered = before ++ ref :: after)
    (hrelation : request.selected.lookup ref = some relation) (hfk : fk ∈ relation.foreignKeys)
    (hparent : request.isSelected (fk.parent relation) = true) :
    fk.parent relation ∈ before := by
  have hentry : (ref, request.dependencies relation) ∈
      request.selected.map fun entry => (entry.1, request.dependencies entry.2) :=
    List.mem_map.mpr ⟨(ref, relation), mem_of_lookup hrelation, rfl⟩
  refine layers_before sorted_perm ?_ hsplit hentry ?_
  · rw [ordering_keys]
    exact selected_nodup
  · exact List.mem_map.mpr ⟨fk, List.mem_filter.mpr ⟨hfk, hparent⟩, rfl⟩

/-! ## Tables one after the other -/

/-- The loop over the tables when nothing blocks: `built` are the rows it adds to `rows`. -/
inductive Builds (request : FixtureRequest) :
    Nat → List (String × Row) → List (String × Row) → Prop
  | nil (seed : Nat) (rows : List (String × Row)) : Builds request seed rows []
  | cons {seed : Nat} {rows built : List (String × Row)} {ref : String} {row : Row}
      {relation : RelationDefinition} (hrelation : request.selected.lookup ref = some relation)
      (hrow : request.buildRow rows ref relation seed = (row, []))
      (hcleanup : relation.cleanupBlockers ref row = [])
      (hrest : Builds request (seed + 1) (rows ++ [(ref, row)]) built) :
      Builds request seed rows ((ref, row) :: built)

theorem builds_of_buildRows {refs : List String} {seed : Nat}
    (hall : ∀ ref ∈ refs, request.isSelected ref = true)
    (hnone : (request.buildRows seed refs rows).2 = []) :
    ∃ built, Builds request seed rows built ∧
      (request.buildRows seed refs rows).1 = rows ++ built ∧ built.map Prod.fst = refs := by
  induction refs generalizing seed rows with
  | nil => exact ⟨[], .nil seed rows, by simp [buildRows], rfl⟩
  | cons ref refs ih =>
    obtain ⟨relation, hrelation⟩ := Option.isSome_iff_exists.mp (hall ref (by simp))
    rw [buildRows, hrelation] at hnone ⊢
    dsimp only at hnone ⊢
    obtain ⟨hfront, hrest⟩ := List.append_eq_nil_iff.mp hnone
    obtain ⟨hfront, hcleanup⟩ := List.append_eq_nil_iff.mp hfront
    obtain ⟨-, hblocked⟩ := List.append_eq_nil_iff.mp hfront
    obtain ⟨built, hbuilt, hrows, hkeys⟩ :=
      ih (fun r hr => hall r (List.mem_cons_of_mem _ hr)) hrest
    refine ⟨(ref, (request.buildRow rows ref relation seed).1) :: built, ?_, ?_, ?_⟩
    · exact .cons hrelation (Prod.ext rfl hblocked) hcleanup hbuilt
    · rw [hrows]
      simp
    · simp [hkeys]

theorem Builds.at {seed : Nat} {rows prior later : List (String × Row)} {row : Row}
    (h : Builds request seed rows (prior ++ (ref, row) :: later)) :
    ∃ relation, request.selected.lookup ref = some relation ∧
      request.buildRow (rows ++ prior) ref relation (seed + prior.length) = (row, []) ∧
      relation.cleanupBlockers ref row = [] := by
  induction prior generalizing seed rows with
  | nil =>
    cases h with
    | cons hrelation hrow hcleanup hrest =>
      exact ⟨_, hrelation, by simpa using hrow, hcleanup⟩
  | cons entry prior ih =>
    cases h with
    | cons hrelation hrow hcleanup hrest =>
      obtain ⟨relation, hrel, hbuilt, hkey⟩ := ih hrest
      refine ⟨relation, hrel, ?_, hkey⟩
      rw [List.append_assoc, List.singleton_append, Nat.add_right_comm] at hbuilt
      exact hbuilt

theorem builds_of_no_blockers (h : request.blockers = []) :
    request.ordering.2 = false ∧ Builds request 1 [] request.rowValues ∧
      request.rowValues.map Prod.fst = request.ordered := by
  obtain ⟨hfront, hrows⟩ := List.append_eq_nil_iff.mp h
  obtain ⟨-, hcycle⟩ := List.append_eq_nil_iff.mp hfront
  have hfree : request.ordering.2 = false := by
    by_contra hstuck
    simp [hstuck] at hcycle
  have hall : ∀ ref ∈ request.ordered, request.isSelected ref = true := by
    intro ref href
    obtain ⟨entry, hentry, rfl⟩ := List.mem_map.mp ((ordered_perm hfree).mem_iff.mp href)
    rw [isSelected, lookup_of_mem_of_nodup selected_nodup hentry]
    rfl
  obtain ⟨built, hbuilt, hvalues, hkeys⟩ := builds_of_buildRows hall hrows
  rw [List.nil_append] at hvalues
  rw [rowValues, hvalues]
  exact ⟨hfree, hbuilt, hkeys⟩

/-! ## Columns one after the other -/

/-- The plan that decides on a column: the last one that is not to skip it. -/
def finalPlan (request : FixtureRequest) (ref : String) (relation : RelationDefinition) (seed : Nat)
    (name : String) : ColumnPlan :=
  let plans := (relation.columns.filter fun c => Text.uppercased c.columnName = name).map
    (request.columnPlan ref relation seed)
  ((plans.filter (· ≠ .skip)).getLast?).getD .skip

end FixtureRequest

/-- The value a plan puts into the row. -/
def ColumnPlan.value (rows : List (String × Row)) : ColumnPlan → Option FixtureValue
  | .write value => some value
  | .inherit parentRef parentColumn => ((rows.lookup parentRef).getD []).lookup parentColumn
  | .skip | .block _ => none

theorem ColumnPlan.run_value {ref name : String} {plan : ColumnPlan}
    {state : Row × List Blocker} (h : (plan.run rows ref name state).2 = []) :
    state.2 = [] ∧ (plan ≠ .skip → (plan.value rows).isSome) ∧
      ∀ other, (plan.run rows ref name state).1.lookup other =
        if other = name ∧ plan ≠ .skip then plan.value rows else state.1.lookup other := by
  obtain ⟨row, blockers⟩ := state
  cases plan with
  | skip => exact ⟨h, by simp, by simp [run]⟩
  | write value =>
    refine ⟨h, by simp [ColumnPlan.value], fun other => ?_⟩
    simp [run, ColumnPlan.value, lookup_setEntry]
  | inherit parentRef parentColumn =>
    cases hvalue : ((rows.lookup parentRef).getD []).lookup parentColumn with
    | none => simp [run, hvalue] at h
    | some value =>
      rw [run, hvalue] at h
      refine ⟨h, by simp [ColumnPlan.value, hvalue], fun other => ?_⟩
      simp [run, ColumnPlan.value, hvalue, lookup_setEntry]
  | block blocker => simp [run] at h

namespace FixtureRequest

variable [Text.CaseMap] {request : FixtureRequest}

/-- A built row holds what its plan gives. -/
theorem buildRow_lookup
    {seed : Nat} {row : Row} (h : request.buildRow rows ref relation seed = (row, []))
    (name : String) :
    row.lookup name = (request.finalPlan ref relation seed name).value rows ∧
      (request.finalPlan ref relation seed name ≠ .skip → (row.lookup name).isSome) := by
  -- both sides read the same columns in the same order; the plans do not depend on them
  rw [buildRow] at h
  rw [finalPlan]
  generalize relation.columns = columns at h
  induction columns using List.reverseRecOn generalizing row with
  | nil =>
    cases h
    simp [ColumnPlan.value]
  | append_singleton columns column ih =>
    rw [List.foldl_append, List.foldl_cons, List.foldl_nil] at h
    have hrun := congrArg Prod.snd h
    obtain ⟨hblocked, hsome, hlookup⟩ := ColumnPlan.run_value hrun
    have hlast := hlookup name
    rw [h] at hlast
    obtain ⟨hvalue, hkept⟩ := ih (Prod.ext rfl hblocked)
    by_cases hname : Text.uppercased column.columnName = name
    · by_cases hskip : request.columnPlan ref relation seed column = .skip
      · simp only [hskip, ne_eq, not_true_eq_false, and_false, if_false] at hlast
        simpa [hname, hskip, hlast] using And.intro hvalue hkept
      · rw [if_pos ⟨hname.symm, hskip⟩] at hlast
        have hset := hsome hskip
        simp [hname, hskip, hlast, hset]
    · have hother : ¬ (name = Text.uppercased column.columnName ∧
          request.columnPlan ref relation seed column ≠ .skip) := fun hboth => hname hboth.1.symm
      rw [if_neg hother] at hlast
      simpa [hname, hlast] using And.intro hvalue hkept

/-! ## Where a value comes from -/

section

variable (request : FixtureRequest)

/-- The last approval for the column is of this value. -/
def Approves (ref name : String) (value : FixtureValue) : Prop :=
  ∃ approval, LastOf (fun v : ApprovedFixtureValue =>
      Text.uppercased v.relationRef = ref ∧ Text.uppercased v.columnName = name)
    request.approvedValues approval ∧ approval.canonicalValue = value

/-- The last foreign key to a requested table that covers the column pairs it with this one. -/
def Follows (relation : RelationDefinition) (name parentRef parentColumn : String) : Prop :=
  LastOf (fun pair => pair.1 = name) ((request.followedKeys relation).flatMap (keyPairs relation))
    (name, parentRef, parentColumn)

/-- The insert names the column: it is not generated, and approved, copied or without a default. -/
def Fills (ref : String) (relation : RelationDefinition) (column : ColumnDefinition) : Prop :=
  (column.generated = false ∧ column.identityColumn = false) ∧
    ((∃ value, request.Approves ref (Text.uppercased column.columnName) value) ∨
      (∃ parentRef parentColumn,
        request.Follows relation (Text.uppercased column.columnName) parentRef parentColumn) ∨
      column.defaultExpression = none)

/-- The column of the table that decides on a name: the last one of it that the insert names. -/
def Decides (ref name : String) (relation : RelationDefinition) (column : ColumnDefinition) :
    Prop :=
  request.selected.lookup ref = some relation ∧
    LastOf (fun c => Text.uppercased c.columnName = name ∧ request.Fills ref relation c)
      relation.columns column

/-- The column is copied from one of a parent table: a followed key pairs the two, and no approval
says otherwise. -/
def Copies (ref name parentRef parentColumn : String) : Prop :=
  ∃ relation column, request.Decides ref name relation column ∧
    (∀ value, ¬ request.Approves ref name value) ∧
      request.Follows relation name parentRef parentColumn

/-- Neither approved nor copied. -/
def OnItsOwn (ref name : String) (relation : RelationDefinition) (column : ColumnDefinition) :
    Prop :=
  request.Decides ref name relation column ∧ (∀ value, ¬ request.Approves ref name value) ∧
    ∀ parentRef parentColumn, ¬ request.Follows relation name parentRef parentColumn

/-- The seed of a table: its place in the order, from 1. -/
def seedOf (ref : String) : Nat := request.ordered.idxOf ref + 1

/-- The request gives a column a value. -/
inductive Given : String → String → FixtureValue → Prop
  | approved {ref name : String} {value : FixtureValue} {relation : RelationDefinition}
      {column : ColumnDefinition} (hcolumn : request.Decides ref name relation column)
      (hvalue : request.Approves ref name value) : Given ref name value
  | copied {ref name parentRef parentColumn : String} {value : FixtureValue}
      (hcopies : request.Copies ref name parentRef parentColumn)
      (hparent : Given parentRef parentColumn value) : Given ref name value
  | null {ref name : String} {relation : RelationDefinition} {column : ColumnDefinition}
      (hown : request.OnItsOwn ref name relation column) (hnullable : column.nullable = true) :
      Given ref name .null
  | synthetic {ref name : String} {value : FixtureValue} {relation : RelationDefinition}
      {column : ColumnDefinition} (hown : request.OnItsOwn ref name relation column)
      (hrequired : column.nullable = false)
      (hvalue : defaultValue column (request.seedOf ref) = some value) : Given ref name value

/-- The plan the compiler follows for a column. -/
def planAt (ref name : String) : ColumnPlan :=
  match request.selected.lookup ref with
  | none => .skip
  | some relation => request.finalPlan ref relation (request.seedOf ref) name

end

/-! ### The plan says where the value comes from -/

theorem approves_iff {ref name : String} {value : FixtureValue} :
    request.Approves ref name value ↔ request.approved ref name = some value := by
  have hlast {approval : ApprovedFixtureValue} : request.approvals.lookup (ref, name) =
    some approval ↔
      LastOf (fun v : ApprovedFixtureValue =>
        Text.uppercased v.relationRef = ref ∧ Text.uppercased v.columnName = name)
        request.approvedValues approval := by
    rw [approvals, List.map_reverse, lookup_reverse_iff]
    constructor
    · rintro ⟨before, after, hsplit, -, hafter⟩
      obtain ⟨first, rest, hvalues, -, hrest⟩ := List.map_eq_append_iff.mp hsplit
      obtain ⟨last, later, rfl, hentry, rfl⟩ := List.map_eq_cons_iff.mp hrest
      obtain ⟨hkey, rfl⟩ := Prod.mk.inj hentry
      refine ⟨first, later, hvalues, Prod.mk.inj hkey, fun v hv hboth => ?_⟩
      exact hafter _ (List.mem_map_of_mem hv) (Prod.ext hboth.1 hboth.2)
    · rintro ⟨before, after, hsplit, ⟨rfl, rfl⟩, hafter⟩
      refine ⟨_, _, by rw [hsplit, List.map_append, List.map_cons], rfl, fun entry hentry heq => ?_⟩
      obtain ⟨v, hv, rfl⟩ := List.mem_map.mp hentry
      exact hafter v hv (Prod.mk.inj heq)
  simp only [Approves, approved, Option.map_eq_some_iff, hlast]

theorem follows_iff {name parentRef parentColumn : String} :
    request.Follows relation name parentRef parentColumn ↔
      request.parentMapping relation name = some (parentRef, parentColumn) :=
  lookup_reverse_iff.symm

theorem not_approves_iff {ref name : String} :
    (∀ value, ¬ request.Approves ref name value) ↔ request.approved ref name = none := by
  simp [approves_iff, Option.eq_none_iff_forall_ne_some]

theorem not_follows_iff {name : String} :
    (∀ parentRef parentColumn, ¬ request.Follows relation name parentRef parentColumn) ↔
      request.parentMapping relation name = none := by
  simp [follows_iff, Option.eq_none_iff_forall_ne_some]

theorem fills_iff {column : ColumnDefinition} (seed : Nat) :
    request.Fills ref relation column ↔ request.columnPlan ref relation seed column ≠ .skip := by
  rw [Fills, columnPlan]
  simp only [approves_iff, follows_iff]
  cases hgenerated : column.generated || column.identityColumn with
  | true =>
    rw [if_pos rfl]
    rw [Bool.or_eq_true] at hgenerated
    rcases hgenerated with h | h <;> simp [h]
  | false =>
    rw [Bool.or_eq_false_iff] at hgenerated
    rw [if_neg (by simp)]
    cases request.approved ref (Text.uppercased column.columnName) with
    | some value => simp [hgenerated]
    | none =>
      cases request.parentMapping relation (Text.uppercased column.columnName) with
      | some parent => simp [hgenerated, Prod.exists.mp ⟨parent, rfl⟩]
      | none =>
        cases column.defaultExpression with
        | some default => simp
        | none =>
          cases column.nullable <;> cases defaultValue column seed <;> simp [hgenerated]

/-- A plan other than to leave the name out is that of the column that decides on it. -/
theorem planAt_eq_iff {ref name : String} {plan : ColumnPlan} (hplan : plan ≠ .skip) :
    request.planAt ref name = plan ↔ ∃ relation column, request.Decides ref name relation column ∧
      request.columnPlan ref relation (request.seedOf ref) column = plan := by
  rw [planAt]
  cases hrelation : request.selected.lookup ref with
  | none => simp [Decides, hrelation, hplan.symm]
  | some relation =>
    have hlast {column : ColumnDefinition} :
        ((relation.columns.filter fun c => Text.uppercased c.columnName = name).filter fun c =>
          request.columnPlan ref relation (request.seedOf ref) c ≠ .skip).getLast? = some column ↔
          LastOf (fun c => Text.uppercased c.columnName = name ∧ request.Fills ref relation c)
            relation.columns column := by
      rw [List.filter_filter, getLast?_filter_iff]
      simp only [fills_iff (request.seedOf ref), Bool.and_eq_true, decide_eq_true_eq, and_comm]
    have hget {plans : Option ColumnPlan} : plans.getD .skip = plan ↔ plans = some plan := by
      cases plans with
      | none => simp [hplan.symm]
      | some other => simp
    dsimp only
    rw [finalPlan, hget, List.filter_map, List.getLast?_map, Option.map_eq_some_iff]
    constructor
    · rintro ⟨column, hcolumn, rfl⟩
      exact ⟨relation, column, ⟨hrelation, hlast.mp hcolumn⟩, rfl⟩
    · rintro ⟨other, column, ⟨hother, hcolumn⟩, rfl⟩
      obtain rfl : relation = other := Option.some.inj (hrelation.symm.trans hother)
      exact ⟨column, hlast.mpr hcolumn, rfl⟩

theorem Decides.name {ref name : String} {column : ColumnDefinition}
    (h : request.Decides ref name relation column) :
    Text.uppercased column.columnName = name ∧ request.Fills ref relation column := by
  obtain ⟨-, before, after, -, hcolumn, -⟩ := h
  exact hcolumn

theorem Decides.plan {ref name : String} {column : ColumnDefinition}
    {seed : Nat} (h : request.Decides ref name relation column) :
    request.columnPlan ref relation seed column =
      match request.approved ref name, request.parentMapping relation name with
      | some value, _ => .write value
      | none, some parent => .inherit parent.1 parent.2
      | none, none =>
        if column.nullable then .write .null
        else
          match defaultValue column seed with
          | some value => .write value
          | none => .block (.noGenerator column.sqlType.family column.columnName) := by
  obtain ⟨hname, ⟨hgenerated, hidentity⟩, hfills⟩ := h.name
  rw [hname] at hfills
  simp only [approves_iff, follows_iff] at hfills
  rw [columnPlan, hname, hgenerated, hidentity]
  cases happroved : request.approved ref name with
  | some value => rfl
  | none =>
    cases hmapping : request.parentMapping relation name with
    | some parent => rfl
    | none =>
      have hdefault : column.defaultExpression = none := by
        simpa [happroved, hmapping] using hfills
      rw [hdefault]
      rfl

theorem copies_iff {ref name parentRef parentColumn : String} :
    request.Copies ref name parentRef parentColumn ↔
      request.planAt ref name = .inherit parentRef parentColumn := by
  rw [planAt_eq_iff (by simp), Copies]
  refine exists_congr fun relation => exists_congr fun column => and_congr_right fun hcolumn => ?_
  rw [not_approves_iff, follows_iff, hcolumn.plan]
  cases request.approved ref name with
  | some value => simp
  | none =>
    cases request.parentMapping relation name with
    | some parent => simp [Prod.ext_iff]
    | none =>
      cases column.nullable <;> cases defaultValue column (request.seedOf ref) <;> simp

/-- The two ways a plan gives a column its value. -/
theorem given_iff {ref name : String} {value : FixtureValue} :
    request.Given ref name value ↔ request.planAt ref name = .write value ∨
      ∃ parentRef parentColumn, request.planAt ref name = .inherit parentRef parentColumn ∧
        request.Given parentRef parentColumn value := by
  rw [planAt_eq_iff (by simp)]
  constructor
  · intro h
    cases h with
    | @approved _ _ _ relation column hcolumn hvalue =>
      refine .inl ⟨relation, column, hcolumn, ?_⟩
      rw [hcolumn.plan, approves_iff.mp hvalue]
    | copied hcopies hparent => exact .inr ⟨_, _, copies_iff.mp hcopies, hparent⟩
    | @null _ _ relation column hown hnullable =>
      obtain ⟨hcolumn, happroved, hmapping⟩ := hown
      refine .inl ⟨relation, column, hcolumn, ?_⟩
      rw [hcolumn.plan, not_approves_iff.mp happroved, not_follows_iff.mp hmapping]
      exact if_pos hnullable
    | @synthetic _ _ _ relation column hown hrequired hvalue =>
      obtain ⟨hcolumn, happroved, hmapping⟩ := hown
      refine .inl ⟨relation, column, hcolumn, ?_⟩
      rw [hcolumn.plan, not_approves_iff.mp happroved, not_follows_iff.mp hmapping]
      simp [hrequired, hvalue]
  · rintro (⟨relation, column, hcolumn, hplan⟩ | ⟨parentRef, parentColumn, hplan, hparent⟩)
    · rw [hcolumn.plan] at hplan
      cases happroved : request.approved ref name with
      | some approval =>
        simp only [happroved, ColumnPlan.write.injEq] at hplan
        exact .approved hcolumn (approves_iff.mpr (hplan ▸ happroved))
      | none =>
        cases hmapping : request.parentMapping relation name with
        | some parent => simp [happroved, hmapping] at hplan
        | none =>
          have hown : request.OnItsOwn ref name relation column :=
            ⟨hcolumn, not_approves_iff.mpr happroved, not_follows_iff.mpr hmapping⟩
          simp only [happroved, hmapping] at hplan
          cases hnullable : column.nullable with
          | true =>
            simp only [hnullable, if_true, ColumnPlan.write.injEq] at hplan
            exact hplan ▸ .null hown hnullable
          | false =>
            cases hvalue : defaultValue column (request.seedOf ref) with
            | none => simp [hnullable, hvalue] at hplan
            | some found =>
              simp only [hnullable, hvalue, Bool.false_eq_true, if_false,
                ColumnPlan.write.injEq] at hplan
              exact .synthetic hown hnullable (hplan ▸ hvalue)
    · exact .copied (copies_iff.mpr hplan) hparent

theorem rowValues_at (h : request.blockers = []) {prior later : List (String × Row)}
    {row : Row} (hsplit : request.rowValues = prior ++ (ref, row) :: later) (name : String) :
    row.lookup name = (request.planAt ref name).value prior ∧
      (request.planAt ref name ≠ .skip → (row.lookup name).isSome) := by
  obtain ⟨hfree, hbuilds, hkeys⟩ := builds_of_no_blockers h
  rw [hsplit] at hbuilds
  obtain ⟨relation, hrelation, hrow, -⟩ := hbuilds.at
  have hseed : request.seedOf ref = 1 + prior.length := by
    have hnodup := ordered_nodup hfree
    rw [← hkeys, hsplit, List.map_append, List.map_cons] at hnodup
    have hfirst : ref ∉ prior.map Prod.fst := by
      intro hmem
      exact (List.nodup_append.mp hnodup).2.2 ref hmem ref (by simp) rfl
    rw [seedOf, ← hkeys, hsplit, List.map_append, List.map_cons,
      List.idxOf_append_of_notMem hfirst, List.idxOf_cons_self, List.length_map]
    omega
  rw [planAt, hrelation]
  dsimp only
  rw [hseed]
  exact buildRow_lookup hrow name

theorem rowValues_nodup (h : request.blockers = []) :
    (request.rowValues.map Prod.fst).Nodup := by
  obtain ⟨hfree, -, hkeys⟩ := builds_of_no_blockers h
  rw [hkeys]
  exact ordered_nodup hfree

/-- A cell has a value iff the request gives it. -/
theorem lookup_iff_given (h : request.blockers = []) {prior later : List (String × Row)}
    {ref name : String} {row : Row} {value : FixtureValue}
    (hsplit : request.rowValues = prior ++ (ref, row) :: later) :
    row.lookup name = some value ↔ Given request ref name value := by
  induction hn : prior.length using Nat.strongRecOn generalizing prior later ref name row with
  | _ n ih =>
    obtain ⟨hrow, hkept⟩ := rowValues_at h hsplit name
    -- an inherited value stands in a row before this one
    have hinherit {parentRef parentColumn : String}
        (hplan : request.planAt ref name = .inherit parentRef parentColumn) :
        row.lookup name = some value ↔ Given request parentRef parentColumn value := by
      obtain ⟨found, hfound⟩ := Option.isSome_iff_exists.mp (hkept (by simp [hplan]))
      rw [hplan, ColumnPlan.value] at hrow
      cases hparent : prior.lookup parentRef with
      | none => simp [hparent, hrow] at hfound
      | some parentRow =>
        rw [hparent, Option.getD_some] at hrow
        obtain ⟨first, second, hprior⟩ := List.append_of_mem (mem_of_lookup hparent)
        rw [hrow]
        have hparentSplit : request.rowValues =
            first ++ (parentRef, parentRow) :: (second ++ (ref, row) :: later) := by
          rw [hsplit, hprior]
          simp
        refine ih first.length ?_ hparentSplit rfl
        rw [← hn, hprior]
        simp
    rw [given_iff]
    constructor
    · intro hvalue
      cases hplan : request.planAt ref name with
      | inherit parentRef parentColumn =>
        exact .inr ⟨parentRef, parentColumn, rfl, (hinherit hplan).mp hvalue⟩
      | write written =>
        rw [hplan, ColumnPlan.value, hvalue] at hrow
        rw [← Option.some.inj hrow]
        exact .inl rfl
      | skip => simp [hplan, ColumnPlan.value, hvalue] at hrow
      | block blocker => simp [hplan, ColumnPlan.value, hvalue] at hrow
    · rintro (hplan | ⟨parentRef, parentColumn, hplan, hparent⟩)
      · rw [hrow, hplan]
        rfl
      · exact (hinherit hplan).mpr hparent

end FixtureRequest

end AtlasDb.Fixtures
