import AtlasDb.Fixtures.Setup

/-!
# Running the teardown

The deletes of a bundle on a database in which its setup succeeded. A table has the columns of the
catalog under the names the setup uses, and other rows than the fixture's.
-/

namespace AtlasDb.Fixtures

open Core Lib

/-! ## Tables and deletes -/

/-- Values as a database has them: what a literal other than NULL denotes, what a column of a type
keeps of a value, and what stands in the columns a statement leaves out. -/
structure Storage (Cell : Type) where
  denotes : FixtureValue → Cell
  kept : CanonicalSqlType → Cell → Cell
  filled : String → String → Option Cell

/-- A row of a table; NULL is `none`. -/
structure DbRow (Cell : Type) where
  table : List String
  cell : String → Option Cell

/-- The table a reference names: its quoted parts. -/
def target (ref : String) : List String := (refParts ref).map identifier

section

variable {Cell : Type} [DecidableEq Cell] (storage : Storage Cell)

def Storage.value : FixtureValue → Option Cell
  | .null => none
  | value => some (storage.denotes value)

/-- The test `column = value AND ...`: TRUE only where neither side is NULL. -/
def Delete.selects (delete : Delete) (row : DbRow Cell) : Bool :=
  row.table = target delete.ref &&
    delete.key.all fun entry =>
      (storage.value entry.2).isSome && row.cell (identifier entry.1) = storage.value entry.2

def Delete.run (rows : List (DbRow Cell)) (delete : Delete) : List (DbRow Cell) :=
  rows.filter fun row => !delete.selects storage row

end

namespace FixtureRequest

variable {Cell : Type} [Text.CaseMap] (request : FixtureRequest) (storage : Storage Cell)

def columnType (ref name : String) : Option CanonicalSqlType :=
  ((request.selected.lookup ref).bind fun relation =>
    relation.columns.find? fun c => Text.uppercased c.columnName = name).map
      ColumnDefinition.sqlType

/-- What a column keeps of a literal. -/
def keptValue (ref name : String) (value : FixtureValue) : Option Cell :=
  (storage.value value).map fun cell =>
    match request.columnType ref name with
    | none => cell
    | some type => storage.kept type cell

/-- The row a statement adds. -/
def dbRow (statement : Insert) : DbRow Cell where
  table := target statement.ref
  cell := fun column =>
    match statement.row.find? fun entry => identifier entry.1 = column with
    | some entry => request.keptValue storage statement.ref entry.1 entry.2
    | none => storage.filled statement.ref column

/-- The columns of the table. -/
def columnNames (ref : String) : List String :=
  ((request.selected.lookup ref).map fun relation =>
    relation.columns.map fun c => identifier (Text.uppercased c.columnName)).getD []

end FixtureRequest

/-- The primary key and the unique constraints. -/
def RelationDefinition.keys (relation : RelationDefinition) : List (List String) :=
  relation.primaryKey :: relation.uniqueConstraints

/-- Two rows of a table with the same key, no part of it NULL. -/
def SameKey [Text.CaseMap] {Cell : Type} (ref : String) (key : List String)
    (row other : DbRow Cell) : Prop :=
  row.table = target ref ∧ other.table = target ref ∧
    ∀ c ∈ key, (row.cell (identifier (Text.uppercased c))).isSome ∧
      row.cell (identifier (Text.uppercased c)) = other.cell (identifier (Text.uppercased c))

namespace FixtureRequest

variable [Text.CaseMap] {Cell : Type} [DecidableEq Cell] (request : FixtureRequest)
  (storage : Storage Cell)

/-- The keys of the catalog hold among the rows. -/
def KeysHold (rows : List (DbRow Cell)) : Prop :=
  ∀ ref relation, request.selected.lookup ref = some relation →
    ∀ key ∈ relation.keys, key ≠ [] → rows.Pairwise fun row other => ¬ SameKey ref key row other

/-- The statements were accepted on top of `initial`: none names a column twice, and the keys
hold. -/
def SetupSucceeded (initial : List (DbRow Cell)) (setup : List Insert) : Prop :=
  (∀ statement ∈ setup, (statement.row.map fun entry => identifier entry.1).Nodup) ∧
    request.KeysHold (initial ++ setup.map (request.dbRow storage))

/-- The delete names columns of its table, is TRUE of the row and of no other. -/
structure DeletesExactly (delete : Delete) (row : DbRow Cell) (others : List (DbRow Cell)) :
    Prop where
  columns : ∀ entry ∈ delete.key, identifier entry.1 ∈ request.columnNames delete.ref
  hits : delete.selects storage row = true
  spares : ∀ other ∈ others, delete.selects storage other = false

/-- Teardown removes exactly what setup inserted. -/
structure TeardownExact (initial : List (DbRow Cell)) (bundle : ExecutableFixtureBundle) :
    Prop where
  deletes : ∀ before statement after, bundle.setup = before ++ statement :: after →
    ∃ first delete last, bundle.teardown = first ++ delete :: last ∧ first.length = after.length ∧
      request.DeletesExactly storage delete (request.dbRow storage statement)
        (initial ++ (before ++ after).map (request.dbRow storage))
  restores : bundle.teardown.foldl (Delete.run storage)
    (initial ++ bundle.setup.map (request.dbRow storage)) = initial
  childrenFirst : ∀ first delete last, bundle.teardown = first ++ delete :: last →
    ∀ relation, request.selected.lookup delete.ref = some relation →
      ∀ fk ∈ relation.foreignKeys, request.isSelected (fk.parent relation) = true →
        fk.parent relation ∈ last.map Delete.ref

/-- The cleanup keys find their rows again: spelled as the setup spells them, with values other than
NULL that the columns keep as they are. -/
def CleanupConsistent : Prop :=
  ∀ ref relation, request.selected.lookup ref = some relation → ∀ c ∈ relation.cleanupKey,
    identifier c = identifier (Text.uppercased c) ∧
      ∃ value, request.Given ref (Text.uppercased c) value ∧ value ≠ .null ∧
        request.keptValue storage ref (Text.uppercased c) value = storage.value value

variable {request} in
omit [DecidableEq Cell] in
theorem keysHold_of_nodup {rows : List (DbRow Cell)} (h : (rows.map DbRow.table).Nodup) :
    request.KeysHold rows := by
  intro ref relation hrelation key hkey hne
  refine (List.pairwise_map.mp h).imp ?_
  rintro row other htables ⟨hrow, hother, -⟩
  exact htables (hrow.trans hother.symm)

/-! ## Names -/

theorem identifier_upper (name : String) :
    identifier (Text.uppercased name) = Text.uppercased (identifier name) := by
  rw [identifier, identifier, Text.uppercased, Text.uppercased, String.toList_ofList,
    String.toList_ofList, Text.strip_uppercase]

variable {request storage}

/-- The columns of a table are in upper case, so a name that is not is not among them. -/
theorem identifier_of_mem_columnNames {ref name : String}
    (h : identifier name ∈ request.columnNames ref) :
    identifier name = identifier (Text.uppercased name) := by
  rw [columnNames] at h
  cases hrelation : request.selected.lookup ref with
  | none => simp [hrelation] at h
  | some relation =>
    rw [hrelation, Option.map_some, Option.getD_some] at h
    obtain ⟨column, -, hcolumn⟩ := List.mem_map.mp h
    rw [identifier_upper, ← hcolumn, identifier_upper, Text.uppercased_uppercased]

variable {relation : RelationDefinition}

theorem column_of_plan {ref name : String} (hrelation : request.selected.lookup ref = some relation)
    (h : request.planAt ref name ≠ .skip) :
    ∃ column ∈ relation.columns, Text.uppercased column.columnName = name := by
  obtain ⟨other, column, hcolumn, -⟩ := (planAt_eq_iff h).mp rfl
  obtain ⟨hother, before, after, hcolumns, ⟨hname, -⟩, -⟩ := hcolumn
  obtain rfl : relation = other := Option.some.inj (hrelation.symm.trans hother)
  exact ⟨column, by rw [hcolumns]; simp, hname⟩

theorem plan_of_given {ref name : String} {value : FixtureValue}
    (h : request.Given ref name value) : request.planAt ref name ≠ .skip := by
  rcases given_iff.mp h with hplan | ⟨parentRef, parentColumn, hplan, -⟩ <;> simp [hplan]

/-! ## The inserted row -/

omit [Text.CaseMap] [DecidableEq Cell] in
theorem find?_of_nodup_map {α β : Type} [DecidableEq β] {f : α → β} {xs : List α} {x : α}
    (hnodup : (xs.map f).Nodup) (hx : x ∈ xs) : xs.find? (fun y => f y = f x) = some x := by
  induction xs with
  | nil => cases hx
  | cons first xs ih =>
    rw [List.map_cons, List.nodup_cons] at hnodup
    rcases List.mem_cons.mp hx with rfl | hmem
    · simp
    · have hne : f first ≠ f x := fun heq => hnodup.1 (heq ▸ List.mem_map_of_mem hmem)
      rw [List.find?_cons_of_neg (by simpa using hne)]
      exact ih hnodup.2 hmem

omit [DecidableEq Cell] in
theorem cell_of_lookup {statement : Insert} {name : String} {value : FixtureValue}
    (hnodup : (statement.row.map fun entry => identifier entry.1).Nodup)
    (h : statement.row.lookup name = some value) :
    (request.dbRow storage statement).cell (identifier name) =
      request.keptValue storage statement.ref name value := by
  rw [dbRow]
  dsimp only
  rw [@find?_of_nodup_map _ _ _ (fun entry : String × FixtureValue => identifier entry.1) _
    (name, value) hnodup (mem_of_lookup h)]

omit [Text.CaseMap] [DecidableEq Cell] in
theorem value_isSome {value : FixtureValue} : (storage.value value).isSome ↔ value ≠ .null := by
  cases value <;> simp [Storage.value]

theorem cleanup_of_lookup {ref : String} {row : Row}
    (hrelation : request.selected.lookup ref = some relation) :
    request.cleanup ref row = ⟨ref, relation.cleanupKey.map fun c =>
      (c, (row.lookup (Text.uppercased c)).getD .null)⟩ := by
  rw [cleanup, hrelation]
  rfl

theorem lookup_cleanupKey {ref : String} {row : Row} (h : relation.cleanupBlockers ref row = []) :
    relation.cleanupKey ≠ [] ∧
      ∀ c ∈ relation.cleanupKey, ∃ value, row.lookup (Text.uppercased c) = some value := by
  rw [RelationDefinition.cleanupBlockers] at h
  by_cases hempty : relation.cleanupKey = []
  · simp [hempty] at h
  · rw [if_neg hempty] at h
    refine ⟨hempty, fun c hc => ?_⟩
    cases hlookup : row.lookup (Text.uppercased c) with
    | some value => exact ⟨value, rfl⟩
    | none =>
      rw [if_pos] at h
      · cases h
      · exact List.any_eq_true.mpr ⟨c, hc, by simp [hlookup]⟩

/-! ## One delete -/

/-- The cleanup key of one table finds its row again. -/
def CleanupConsistentAt (request : FixtureRequest) (storage : Storage Cell) (ref : String)
    (relation : RelationDefinition) : Prop :=
  ∀ c ∈ relation.cleanupKey, identifier c = identifier (Text.uppercased c) ∧
    ∃ value, request.Given ref (Text.uppercased c) value ∧ value ≠ .null ∧
      request.keptValue storage ref (Text.uppercased c) value = storage.value value

section

variable (h : request.blockers = []) {prior later : List (String × Row)} {ref : String} {row : Row}
  {relation : RelationDefinition}
  (hsplit : request.rowValues = prior ++ (ref, row) :: later)
  (hrelation : request.selected.lookup ref = some relation)
  (hnodup : (row.map fun entry => identifier entry.1).Nodup)

include h hsplit hrelation in
theorem cleanup_available : relation.cleanupKey ≠ [] ∧
    ∀ c ∈ relation.cleanupKey, ∃ value, row.lookup (Text.uppercased c) = some value := by
  obtain ⟨-, hbuilds, -⟩ := builds_of_no_blockers h
  rw [hsplit] at hbuilds
  obtain ⟨other, hother, -, hcleanup⟩ := hbuilds.at
  obtain rfl : relation = other := Option.some.inj (hrelation.symm.trans hother)
  exact lookup_cleanupKey hcleanup

include h hsplit hrelation hnodup in
/-- When a cleanup statement finds its row. -/
theorem columns_and_hits_iff :
    ((∀ entry ∈ (request.cleanup ref row).key,
        identifier entry.1 ∈ request.columnNames (request.cleanup ref row).ref) ∧
      (request.cleanup ref row).selects storage (request.dbRow storage ⟨ref, row⟩) = true) ↔
      CleanupConsistentAt request storage ref relation := by
  have hcell {c : String} {value : FixtureValue}
      (hlookup : row.lookup (Text.uppercased c) = some value) :=
    @cell_of_lookup _ _ request storage ⟨ref, row⟩ _ value hnodup hlookup
  obtain ⟨-, havailable⟩ := cleanup_available h hsplit hrelation
  rw [cleanup_of_lookup hrelation]
  dsimp only
  constructor
  · rintro ⟨hcolumns, hhits⟩ c hc
    obtain ⟨value, hlookup⟩ := havailable c hc
    have hentry : (c, (row.lookup (Text.uppercased c)).getD .null) ∈
        relation.cleanupKey.map fun c => (c, (row.lookup (Text.uppercased c)).getD .null) :=
      List.mem_map.mpr ⟨c, hc, rfl⟩
    have hcolumn := hcolumns _ hentry
    have hspelled := identifier_of_mem_columnNames hcolumn
    dsimp only at hspelled
    rw [Delete.selects, Bool.and_eq_true, List.all_eq_true] at hhits
    have htest := hhits.2 _ hentry
    simp only [hlookup, Option.getD_some, Bool.and_eq_true, decide_eq_true_eq] at htest
    refine ⟨hspelled, value, (lookup_iff_given h hsplit).mp hlookup, value_isSome.mp htest.1, ?_⟩
    rw [hspelled, hcell hlookup] at htest
    exact htest.2
  · intro hconsistent
    refine ⟨?_, ?_⟩
    · intro entry hentry
      obtain ⟨c, hc, rfl⟩ := List.mem_map.mp hentry
      obtain ⟨hspelled, value, hgiven, -⟩ := hconsistent c hc
      obtain ⟨column, hcolumn, hname⟩ := column_of_plan hrelation (plan_of_given hgiven)
      show identifier c ∈ request.columnNames ref
      rw [columnNames, hrelation, Option.map_some, Option.getD_some, hspelled, ← hname]
      exact List.mem_map.mpr ⟨column, hcolumn, rfl⟩
    · rw [Delete.selects, Bool.and_eq_true, List.all_eq_true]
      refine ⟨by simp [dbRow], fun entry hentry => ?_⟩
      obtain ⟨c, hc, rfl⟩ := List.mem_map.mp hentry
      obtain ⟨hspelled, value, hgiven, hvalue, hkept⟩ := hconsistent c hc
      have hlookup := (lookup_iff_given h hsplit).mpr hgiven
      simp only [hlookup, Option.getD_some, Bool.and_eq_true, decide_eq_true_eq]
      refine ⟨value_isSome.mpr hvalue, ?_⟩
      rw [hspelled, hcell hlookup]
      exact hkept

omit [DecidableEq Cell] in
theorem SameKey.symm {key : List String} {one other : DbRow Cell}
    (hsame : SameKey ref key one other) :
    SameKey ref key other one := by
  obtain ⟨hone, hother, hcells⟩ := hsame
  refine ⟨hother, hone, fun c hc => ?_⟩
  obtain ⟨hsome, heq⟩ := hcells c hc
  exact ⟨heq ▸ hsome, heq.symm⟩

include hrelation in
theorem sameKey_of_selects (hconsistent : CleanupConsistentAt request storage ref relation)
    {one other : DbRow Cell} (hone : (request.cleanup ref row).selects storage one = true)
    (hother : (request.cleanup ref row).selects storage other = true) :
    SameKey ref relation.cleanupKey one other := by
  rw [cleanup_of_lookup hrelation, Delete.selects, Bool.and_eq_true, List.all_eq_true]
    at hone hother
  refine ⟨of_decide_eq_true hone.1, of_decide_eq_true hother.1, fun c hc => ?_⟩
  have htest := hone.2 _ (List.mem_map.mpr ⟨c, hc, rfl⟩)
  have htest' := hother.2 _ (List.mem_map.mpr ⟨c, hc, rfl⟩)
  simp only [Bool.and_eq_true, decide_eq_true_eq] at htest htest'
  rw [← (hconsistent c hc).1]
  refine ⟨?_, htest.2.trans htest'.2.symm⟩
  rw [htest.2]
  exact htest.1

omit [Text.CaseMap] [DecidableEq Cell] in
theorem cleanupKey_mem_keys (hkey : relation.cleanupKey ≠ []) :
    relation.cleanupKey ∈ relation.keys := by
  unfold RelationDefinition.cleanupKey RelationDefinition.keys at *
  by_cases hprimary : relation.primaryKey = []
  · cases hunique : relation.uniqueConstraints with
    | nil => simp [hprimary, hunique] at hkey
    | cons first rest => simp [hprimary]
  · simp [hprimary]

include h hsplit hrelation in
theorem selects_other_of_keysHold {front back : List (DbRow Cell)} {hit : DbRow Cell}
    (hconsistent : CleanupConsistentAt request storage ref relation)
    (hhits : (request.cleanup ref row).selects storage hit = true)
    (hkeys : request.KeysHold (front ++ hit :: back)) :
    ∀ other ∈ front ++ back, (request.cleanup ref row).selects storage other = false := by
  intro other hother
  by_contra hselected
  rw [Bool.not_eq_false] at hselected
  have hkey := (cleanup_available h hsplit hrelation).1
  have hpairwise := hkeys ref relation hrelation _ (cleanupKey_mem_keys hkey) hkey
  have hsame := sameKey_of_selects hrelation hconsistent hselected hhits
  obtain ⟨-, hback, hfront⟩ := List.pairwise_append.mp hpairwise
  rcases List.mem_append.mp hother with hmem | hmem
  · exact hfront other hmem hit (by simp) hsame
  · exact (List.pairwise_cons.mp hback).1 other hmem (SameKey.symm hsame)

end

/-! ## All deletes -/

theorem run_teardown {initial : List (DbRow Cell)} (entries : List (String × Row))
    (hexact : ∀ prior entry later, entries = prior ++ entry :: later →
      (request.cleanup entry.1 entry.2).selects storage
        (request.dbRow storage ⟨entry.1, entry.2⟩) = true ∧
      ∀ other ∈ initial ++ prior.map fun e => request.dbRow storage ⟨e.1, e.2⟩,
        (request.cleanup entry.1 entry.2).selects storage other = false) :
    (entries.reverse.map fun e => request.cleanup e.1 e.2).foldl (Delete.run storage)
      (initial ++ entries.map fun e => request.dbRow storage ⟨e.1, e.2⟩) = initial := by
  induction entries using List.reverseRecOn with
  | nil => simp
  | append_singleton entries entry ih =>
    obtain ⟨hhits, hspares⟩ := hexact entries entry [] rfl
    have hrun : Delete.run storage
        (initial ++ (entries ++ [entry]).map fun e => request.dbRow storage ⟨e.1, e.2⟩)
        (request.cleanup entry.1 entry.2) =
          initial ++ entries.map fun e => request.dbRow storage ⟨e.1, e.2⟩ := by
      rw [Delete.run, List.map_append, ← List.append_assoc, List.filter_append,
        List.filter_eq_self.mpr (fun other hother => by rw [hspares other hother]; rfl)]
      simp [hhits]
    rw [List.reverse_append, List.reverse_singleton, List.singleton_append, List.map_cons,
      List.foldl_cons, hrun]
    apply ih
    intro prior other later hsplit
    exact hexact prior other (later ++ [entry]) (by rw [hsplit]; simp)

theorem deletesExactly_of_consistent (h : request.blockers = [])
    (hconsistent : request.CleanupConsistent storage) {initial : List (DbRow Cell)}
    (hsetup : request.SetupSucceeded storage initial request.setup)
    {prior later : List (String × Row)} {ref : String} {row : Row}
    (hsplit : request.rowValues = prior ++ (ref, row) :: later) :
    request.DeletesExactly storage (request.cleanup ref row) (request.dbRow storage ⟨ref, row⟩)
      (initial ++ (prior ++ later).map fun e => request.dbRow storage ⟨e.1, e.2⟩) := by
  obtain ⟨hnames, hkeys⟩ := hsetup
  have hnodup : (row.map fun entry => identifier entry.1).Nodup :=
    hnames ⟨ref, row⟩ (List.mem_map.mpr ⟨(ref, row), by rw [hsplit]; simp, rfl⟩)
  obtain ⟨-, hbuilds, -⟩ := builds_of_no_blockers h
  rw [hsplit] at hbuilds
  obtain ⟨relation, hrelation, -⟩ := hbuilds.at
  obtain ⟨hcolumns, hhits⟩ := (columns_and_hits_iff h hsplit hrelation hnodup).mpr
    (hconsistent ref relation hrelation)
  refine ⟨hcolumns, hhits, ?_⟩
  rw [setup, hsplit, List.map_map, List.map_append, List.map_cons, ← List.append_assoc] at hkeys
  rw [List.map_append, ← List.append_assoc]
  exact selects_other_of_keysHold h hsplit hrelation
    (hconsistent ref relation hrelation) hhits hkeys

theorem teardown_split {prior later : List (String × Row)} {ref : String} {row : Row}
    (hsplit : request.rowValues = prior ++ (ref, row) :: later) :
    request.teardown = (later.reverse.map fun e => request.cleanup e.1 e.2) ++
      request.cleanup ref row :: prior.reverse.map fun e => request.cleanup e.1 e.2 := by
  rw [teardown, hsplit]
  simp

theorem teardown_childrenFirst (h : request.blockers = []) {first last : List Delete}
    {delete : Delete} (hsplit : request.teardown = first ++ delete :: last)
    (hrelation : request.selected.lookup delete.ref = some relation)
    {fk : ForeignKeyDefinition} (hfk : fk ∈ relation.foreignKeys)
    (hparent : request.isSelected (fk.parent relation) = true) :
    fk.parent relation ∈ last.map Delete.ref := by
  rw [teardown] at hsplit
  obtain ⟨later, rest, hrows, -, hrest⟩ := List.map_eq_append_iff.mp hsplit
  obtain ⟨⟨ref, row⟩, prior, rfl, rfl, rfl⟩ := List.map_eq_cons_iff.mp hrest
  have hvalues : request.rowValues = prior.reverse ++ (ref, row) :: later.reverse := by
    have hreverse := congrArg List.reverse hrows
    simpa using hreverse
  obtain ⟨parentRow, hlookup⟩ := parent_row h hvalues hrelation hfk hparent
  refine List.mem_map.mpr ⟨request.cleanup (fk.parent relation) parentRow, ?_, rfl⟩
  refine List.mem_map.mpr ⟨(fk.parent relation, parentRow), ?_, rfl⟩
  exact List.mem_reverse.mp (mem_of_lookup hlookup)

end FixtureRequest

open FixtureRequest

/-- On every database in which the setup succeeded, the teardown of an executable bundle removes
exactly the rows of the setup if and only if the cleanup keys are consistent: the compiler repeats
the key as the catalog spells it and compares with `=` whatever the row holds. -/
theorem compile_teardown_exact_iff [Text.CaseMap] (nfc : Nfc) {Cell : Type} [DecidableEq Cell]
    (storage : Storage Cell) (request : FixtureRequest) (bundle : ExecutableFixtureBundle)
    (h : compile nfc request = .ok bundle) (hstatus : bundle.status = .executable)
    (initial : List (DbRow Cell))
    (hsetup : request.SetupSucceeded storage initial bundle.setup) :
    request.TeardownExact storage initial bundle ↔ request.CleanupConsistent storage := by
  obtain ⟨hblockers, hset, htear⟩ := compile_executable h hstatus
  rw [hset] at hsetup
  constructor
  · intro hexact ref relation hrelation
    obtain ⟨prior, row, later, hsplit⟩ := exists_row hblockers hrelation
    obtain ⟨first, delete, last, hdelete, hlength, hrow⟩ := hexact.deletes
      (prior.map fun e => ⟨e.1, e.2⟩) ⟨ref, row⟩ (later.map fun e => ⟨e.1, e.2⟩)
      (by rw [hset, FixtureRequest.setup, hsplit]; simp)
    rw [htear, teardown_split hsplit] at hdelete
    obtain ⟨-, hcons⟩ := List.append_inj hdelete (by simpa using hlength.symm)
    obtain ⟨rfl, -⟩ := List.cons.inj hcons
    have hnodup : (row.map fun entry => identifier entry.1).Nodup :=
      hsetup.1 ⟨ref, row⟩ (List.mem_map.mpr ⟨(ref, row), by rw [hsplit]; simp, rfl⟩)
    exact (columns_and_hits_iff hblockers hsplit hrelation hnodup).mp ⟨hrow.columns, hrow.hits⟩
  · intro hconsistent
    have hdeletes {prior later : List (String × Row)} {ref : String} {row : Row}
        (hsplit : request.rowValues = prior ++ (ref, row) :: later) :=
      deletesExactly_of_consistent hblockers hconsistent hsetup hsplit
    refine ⟨?_, ?_, ?_⟩
    · intro before statement after hsplit
      rw [hset, FixtureRequest.setup] at hsplit
      obtain ⟨prior, rest, hrows, rfl, hrest⟩ := List.map_eq_append_iff.mp hsplit
      obtain ⟨⟨ref, row⟩, later, rfl, rfl, rfl⟩ := List.map_eq_cons_iff.mp hrest
      refine ⟨_, _, _, htear.trans (teardown_split hrows), by simp, ?_⟩
      rw [← List.map_append, List.map_map]
      exact hdeletes hrows
    · rw [hset, htear, FixtureRequest.setup, teardown, List.map_map]
      refine run_teardown request.rowValues fun prior entry later hsplit => ?_
      refine ⟨(hdeletes hsplit).hits, fun other hother => (hdeletes hsplit).spares other ?_⟩
      rw [List.map_append, ← List.append_assoc]
      exact List.mem_append_left _ hother
    · intro first delete last hsplit relation hrelation fk hfk hparent
      rw [htear] at hsplit
      exact teardown_childrenFirst hblockers hsplit hrelation hfk hparent

local instance asciiTeardown : Text.CaseMap := Text.asciiCase

/-- `CODE INTEGER UNIQUE`, no primary key. -/
def codeTable : RelationDefinition where
  schemaName := "S"
  columns := [{ columnName := "CODE", sqlType := { family := .integer }, nullable := true }]
  uniqueConstraints := [["CODE"]]

def codeRequest : FixtureRequest where
  catalog := ⟨[⟨"S.T", .table, codeTable⟩], by decide +kernel⟩
  relationRefs := ["S.T"]

/-- Values are what the literals say. -/
def plainStorage : Storage FixtureValue where
  denotes := id
  kept := fun _ => id
  filled := fun _ _ => none

theorem claimAndCustomer_teardown_exact_iff :
    ∃ bundle, compile asciiNfc claimAndCustomer = .ok bundle ∧
    bundle.status = .executable ∧
    (claimAndCustomer.TeardownExact plainStorage [] bundle ↔
      claimAndCustomer.CleanupConsistent plainStorage) := by
  obtain ⟨bundle, hbundle, hstatus⟩ :=
    @exists_executable _ asciiNfc claimAndCustomer (by decide +kernel)
  refine ⟨bundle, hbundle, hstatus,
    compile_teardown_exact_iff asciiNfc plainStorage claimAndCustomer bundle hbundle hstatus
    [] ⟨?_, ?_⟩⟩
  · rw [(compile_executable hbundle hstatus).2.1]
    decide +kernel
  · rw [(compile_executable hbundle hstatus).2.1]
    exact keysHold_of_nodup (by decide +kernel)

/-- The row of `S.T` has a NULL key, and no row is deleted. -/
theorem codeRequest_teardown_misses : ∃ bundle, compile asciiNfc codeRequest = .ok bundle ∧
    bundle.status = .executable ∧ codeRequest.SetupSucceeded plainStorage [] bundle.setup ∧
    ¬ codeRequest.TeardownExact plainStorage [] bundle := by
  obtain ⟨bundle, hbundle, hstatus⟩ := @exists_executable _ asciiNfc codeRequest (by decide +kernel)
  obtain ⟨-, hset, htear⟩ := compile_executable hbundle hstatus
  refine ⟨bundle, hbundle, hstatus, ⟨?_, ?_⟩, fun hexact => ?_⟩
  · rw [hset]
    decide +kernel
  · rw [hset]
    exact keysHold_of_nodup (by decide +kernel)
  · have hleft : (codeRequest.teardown.foldl (Delete.run plainStorage)
        (codeRequest.setup.map (codeRequest.dbRow plainStorage))).length = 1 := by
      decide +kernel
    have hnone := congrArg List.length hexact.restores
    rw [hset, htear, List.nil_append, hleft] at hnone
    cases hnone

end AtlasDb.Fixtures
