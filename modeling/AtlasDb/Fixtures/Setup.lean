import AtlasDb.Fixtures.Rows

/-!
# Running the setup

The inserts of a bundle run one after the other on empty tables. A row must meet the foreign keys
and the NOT NULL columns the catalog records for its table.
-/

namespace AtlasDb.Fixtures

open Core Lib

/-! ## Stored rows and their constraints -/

/-- What the database decides: the value it puts into a column the statement leaves out, such as a
default or a generated value, and which values a column of a type takes. -/
structure Dbms where
  filled : String → String → FixtureValue
  accepts : CanonicalSqlType → FixtureValue → Bool

structure StoredRow where
  ref : String
  value : String → FixtureValue

def Dbms.store (dbms : Dbms) (statement : Insert) : StoredRow where
  ref := statement.ref
  value := fun name => (statement.row.lookup name).getD (dbms.filled statement.ref name)

/-- A column of the key is NULL, or a row stored earlier has the values the key refers to. -/
def KeyMet [Text.CaseMap] (relation : RelationDefinition) (fk : ForeignKeyDefinition)
    (earlier : List StoredRow) (row : StoredRow) : Prop :=
  (∃ c ∈ fk.localColumns, row.value (Text.uppercased c) = .null) ∨
    ∃ parent ∈ earlier, parent.ref = fk.parent relation ∧
      (fk.localColumns.map fun c => row.value (Text.uppercased c)) =
        fk.referencedColumns.map fun c => parent.value (Text.uppercased c)

/-- A column that has to get its value from the statement. -/
def ColumnDefinition.required (column : ColumnDefinition) : Bool :=
  !column.nullable && column.defaultExpression.isNone && !column.generated && !column.identityColumn

/-- The statement sets the column to a value of its type other than NULL. -/
def Receives [Text.CaseMap] (dbms : Dbms) (statement : Insert) (column : ColumnDefinition) : Prop :=
  ∃ value, statement.row.lookup (Text.uppercased column.columnName) = some value ∧
    value ≠ .null ∧ dbms.accepts column.sqlType value = true

def MeetsConstraints [Text.CaseMap] (dbms : Dbms) (request : FixtureRequest)
    (earlier : List StoredRow) (statement : Insert) : Prop :=
  ∀ relation, request.selected.lookup statement.ref = some relation →
    (∀ fk ∈ relation.foreignKeys, KeyMet relation fk earlier (dbms.store statement)) ∧
    ∀ column ∈ relation.columns, column.required = true → Receives dbms statement column

/-- The statements run in order after the rows `earlier`, and none violates a constraint. -/
def RunsClean [Text.CaseMap] (dbms : Dbms) (request : FixtureRequest) :
    List StoredRow → List Insert → Prop
  | _, [] => True
  | earlier, statement :: statements =>
    MeetsConstraints dbms request earlier statement ∧
      RunsClean dbms request (earlier ++ [dbms.store statement]) statements

theorem runsClean_iff [Text.CaseMap] {dbms : Dbms} {request : FixtureRequest}
    {earlier : List StoredRow} {statements : List Insert} :
    RunsClean dbms request earlier statements ↔
      ∀ before statement after, statements = before ++ statement :: after →
        MeetsConstraints dbms request (earlier ++ before.map dbms.store) statement := by
  induction statements generalizing earlier with
  | nil => simp [RunsClean]
  | cons first rest ih =>
    rw [RunsClean, ih]
    constructor
    · rintro ⟨hfirst, hrest⟩ before statement after hsplit
      cases before with
      | nil =>
        obtain ⟨rfl, rfl⟩ := List.cons.inj hsplit
        simpa using hfirst
      | cons other before =>
        obtain ⟨rfl, htail⟩ := List.cons.inj hsplit
        simpa using hrest before statement after htail
    · intro hall
      refine ⟨by simpa using hall [] first rest rfl, ?_⟩
      intro before statement after hsplit
      simpa using hall (first :: before) statement after (by rw [hsplit]; rfl)

/-! ## The condition on the request -/

theorem map_eq_map_iff_zip {α β γ : Type} {f : α → γ} {g : β → γ} {xs : List α} {ys : List β} :
    xs.map f = ys.map g ↔ xs.length = ys.length ∧ ∀ pair ∈ xs.zip ys, f pair.1 = g pair.2 := by
  induction xs generalizing ys with
  | nil => cases ys <;> simp
  | cons x xs ih =>
    cases ys with
    | nil => simp
    | cons y ys =>
      rw [List.map_cons, List.map_cons, List.cons.injEq, ih, List.zip_cons_cons,
        List.forall_mem_cons, List.length_cons, List.length_cons, Nat.add_right_cancel_iff]
      exact and_left_comm

namespace FixtureRequest

section

variable [Text.CaseMap] (request : FixtureRequest) (dbms : Dbms)

/-- The value a column ends up with: given by the request, or filled in by the database. -/
def Holds (ref name : String) (value : FixtureValue) : Prop :=
  request.Given ref name value ∨
    (∀ given, ¬ request.Given ref name given) ∧ value = dbms.filled ref name

/-- The pair of columns is kept equal: the column is copied from that of the parent, not put aside
by an approval or a later key over it, or both columns end up with one value anyway. -/
def PairAgrees (ref parentRef : String) (pair : String × String) : Prop :=
  request.Copies ref (Text.uppercased pair.1) parentRef (Text.uppercased pair.2) ∨
    ∃ value, request.Holds dbms ref (Text.uppercased pair.1) value ∧
      request.Holds dbms parentRef (Text.uppercased pair.2) value

def KeyConsistent (ref : String) (relation : RelationDefinition) (fk : ForeignKeyDefinition) :
    Prop :=
  (∃ c ∈ fk.localColumns, request.Holds dbms ref (Text.uppercased c) .null) ∨
    request.isSelected (fk.parent relation) = true ∧
      fk.localColumns.length = fk.referencedColumns.length ∧
      ∀ pair ∈ fk.localColumns.zip fk.referencedColumns,
        request.PairAgrees dbms ref (fk.parent relation) pair

/-- The request names the parents of its tables or leaves the keys NULL, keeps keys equal to what
they refer to, and gives every required column a value of its type. -/
def Consistent : Prop :=
  ∀ ref relation, request.selected.lookup ref = some relation →
    (∀ fk ∈ relation.foreignKeys, request.KeyConsistent dbms ref relation fk) ∧
    ∀ column ∈ relation.columns, column.required = true →
      ∃ value, request.Given ref (Text.uppercased column.columnName) value ∧ value ≠ .null ∧
        dbms.accepts column.sqlType value = true

end

variable [Text.CaseMap] {request : FixtureRequest} {dbms : Dbms}

variable {prior later : List (String × Row)} {relation : RelationDefinition}

theorem store_value_iff (h : request.blockers = [])
    {ref name : String} {row : Row} {value : FixtureValue}
    (hsplit : request.rowValues = prior ++ (ref, row) :: later) :
    (dbms.store ⟨ref, row⟩).value name = value ↔ request.Holds dbms ref name value := by
  have hgiven {v : FixtureValue} := @lookup_iff_given _ request h prior later ref name row v hsplit
  rw [Dbms.store, Holds]
  dsimp only
  cases hlookup : row.lookup name with
  | none =>
    have hnone : ∀ given, ¬ request.Given ref name given := by
      intro given hgive
      rw [hgiven.mpr hgive] at hlookup
      cases hlookup
    simp only [Option.getD_none, hnone, not_false_eq_true, implies_true, true_and, false_or]
    exact eq_comm
  | some found =>
    have hfound := hgiven.mp hlookup
    rw [Option.getD_some]
    constructor
    · rintro rfl
      exact .inl hfound
    · rintro (hgive | ⟨hnone, -⟩)
      · exact Option.some.inj (hlookup.symm.trans (hgiven.mpr hgive))
      · exact absurd hfound (hnone found)

theorem copied_value (h : request.blockers = [])
    {ref name parentRef parentColumn : String} {row parentRow : Row}
    (hsplit : request.rowValues = prior ++ (ref, row) :: later)
    (hplan : request.planAt ref name = .inherit parentRef parentColumn)
    (hparent : prior.lookup parentRef = some parentRow) :
    (dbms.store ⟨ref, row⟩).value name =
      (dbms.store ⟨parentRef, parentRow⟩).value parentColumn := by
  obtain ⟨hrow, hkept⟩ := rowValues_at h hsplit name
  obtain ⟨value, hvalue⟩ := Option.isSome_iff_exists.mp (hkept (by simp [hplan]))
  rw [hplan, ColumnPlan.value, hparent, Option.getD_some, hvalue] at hrow
  simp [Dbms.store, hvalue, ← hrow]

theorem parent_row (h : request.blockers = []) {ref : String}
    {row : Row} {fk : ForeignKeyDefinition}
    (hsplit : request.rowValues = prior ++ (ref, row) :: later)
    (hrelation : request.selected.lookup ref = some relation) (hfk : fk ∈ relation.foreignKeys)
    (hparent : request.isSelected (fk.parent relation) = true) :
    ∃ parentRow, prior.lookup (fk.parent relation) = some parentRow := by
  obtain ⟨hfree, -, hkeys⟩ := builds_of_no_blockers h
  have hbefore : fk.parent relation ∈ prior.map Prod.fst := by
    refine @parent_before _ ref _ request _ (later.map Prod.fst) fk ?_ hrelation hfk hparent
    rw [← hkeys, hsplit]
    simp
  obtain ⟨⟨parentRef, parentRow⟩, hentry, rfl⟩ := List.mem_map.mp hbefore
  refine ⟨parentRow, lookup_of_mem_of_nodup ?_ hentry⟩
  have hnodup := rowValues_nodup h
  rw [hsplit, List.map_append] at hnodup
  exact (List.nodup_append.mp hnodup).1

theorem split_of_mem_prior {entry parent : String × Row}
    (hsplit : request.rowValues = prior ++ entry :: later) (hparent : parent ∈ prior) :
    ∃ first rest, request.rowValues = first ++ parent :: rest := by
  obtain ⟨first, second, rfl⟩ := List.append_of_mem hparent
  exact ⟨first, second ++ entry :: later, by rw [hsplit]; simp⟩

/-- A foreign key is met iff the parent's cells agree. -/
theorem keyMet_iff (h : request.blockers = []) {ref : String}
    {row : Row} {fk : ForeignKeyDefinition}
    (hsplit : request.rowValues = prior ++ (ref, row) :: later)
    (hrelation : request.selected.lookup ref = some relation) (hfk : fk ∈ relation.foreignKeys) :
    KeyMet relation fk (prior.map fun entry => dbms.store ⟨entry.1, entry.2⟩)
        (dbms.store ⟨ref, row⟩) ↔ request.KeyConsistent dbms ref relation fk := by
  rw [KeyMet, KeyConsistent]
  simp only [store_value_iff h hsplit]
  refine or_congr_right ⟨?_, ?_⟩
  · rintro ⟨parent, hparent, href, hvalues⟩
    obtain ⟨⟨parentRef, parentRow⟩, hentry, rfl⟩ := List.mem_map.mp hparent
    obtain ⟨first, rest, hsplitParent⟩ := split_of_mem_prior hsplit hentry
    replace href : parentRef = fk.parent relation := href
    rw [href] at hvalues hsplitParent
    rw [map_eq_map_iff_zip] at hvalues
    refine ⟨?_, hvalues.1, fun pair hpair => .inr ?_⟩
    · obtain ⟨hfree, -, hkeys⟩ := builds_of_no_blockers h
      have hordered : fk.parent relation ∈ request.ordered := by
        rw [← hkeys, hsplitParent]
        simp
      obtain ⟨entry, hmem, hkey⟩ :=
        List.mem_map.mp ((ordered_perm hfree).mem_iff.mp hordered)
      rw [isSelected, ← hkey, lookup_of_mem_of_nodup selected_nodup hmem]
      rfl
    · refine ⟨_, (store_value_iff h hsplit).mp (hvalues.2 pair hpair), ?_⟩
      exact (store_value_iff h hsplitParent).mp rfl
  · rintro ⟨hselected, hlength, hpairs⟩
    obtain ⟨parentRow, hlookup⟩ := parent_row h hsplit hrelation hfk hselected
    have hentry := mem_of_lookup hlookup
    obtain ⟨first, rest, hsplitParent⟩ := split_of_mem_prior hsplit hentry
    refine ⟨_, List.mem_map.mpr ⟨_, hentry, rfl⟩, rfl, ?_⟩
    rw [map_eq_map_iff_zip]
    refine ⟨hlength, fun pair hpair => ?_⟩
    rcases hpairs pair hpair with hcopied | ⟨value, hchild, hparent⟩
    · exact copied_value h hsplit (copies_iff.mp hcopied) hlookup
    · exact ((store_value_iff h hsplit).mpr hchild).trans
        ((store_value_iff h hsplitParent).mpr hparent).symm

theorem exists_row (h : request.blockers = []) {ref : String}
    (hrelation : request.selected.lookup ref = some relation) :
    ∃ prior row later, request.rowValues = prior ++ (ref, row) :: later := by
  obtain ⟨hfree, -, hkeys⟩ := builds_of_no_blockers h
  have hmem : ref ∈ request.rowValues.map Prod.fst := by
    rw [hkeys, (ordered_perm hfree).mem_iff]
    exact List.mem_map.mpr ⟨_, mem_of_lookup hrelation, rfl⟩
  obtain ⟨⟨other, row⟩, hentry, rfl⟩ := List.mem_map.mp hmem
  obtain ⟨prior, later, hsplit⟩ := List.append_of_mem hentry
  exact ⟨prior, row, later, hsplit⟩

theorem meetsConstraints_iff (h : request.blockers = [])
    {ref : String} {row : Row} (hsplit : request.rowValues = prior ++ (ref, row) :: later) :
    MeetsConstraints dbms request (prior.map fun entry => dbms.store ⟨entry.1, entry.2⟩)
    ⟨ref, row⟩ ↔
      ∀ relation, request.selected.lookup ref = some relation →
        (∀ fk ∈ relation.foreignKeys, request.KeyConsistent dbms ref relation fk) ∧
        ∀ column ∈ relation.columns, column.required = true →
          ∃ value, request.Given ref (Text.uppercased column.columnName) value ∧ value ≠ .null ∧
            dbms.accepts column.sqlType value = true := by
  refine forall_congr' fun relation => forall_congr' fun hrelation => and_congr ?_ ?_
  · exact forall_congr' fun fk => forall_congr' fun hfk => keyMet_iff h hsplit hrelation hfk
  · refine forall_congr' fun column => forall_congr' fun _ => forall_congr' fun _ => ?_
    simp only [Receives, lookup_iff_given h hsplit]

end FixtureRequest

open FixtureRequest

/-! ## The setup of a bundle -/

/-- The setup of an executable bundle violates no foreign key and no NOT NULL column exactly for the
consistent requests: the compiler follows keys only to requested tables and lets approvals, defaults
and later keys put their values aside unchecked. -/
theorem compile_setup_runsClean_iff [Text.CaseMap] (nfc : Nfc) (dbms : Dbms)
    (request : FixtureRequest) (bundle : ExecutableFixtureBundle)
    (h : compile nfc request = .ok bundle) (hstatus : bundle.status = .executable) :
    RunsClean dbms request [] bundle.setup ↔ request.Consistent dbms := by
  obtain ⟨hblockers, hsetup, -⟩ := compile_executable h hstatus
  rw [hsetup, runsClean_iff, FixtureRequest.setup]
  constructor
  · intro hclean ref relation hrelation
    obtain ⟨prior, row, later, hsplit⟩ := exists_row hblockers hrelation
    have hmeets := hclean (prior.map fun entry => ⟨entry.1, entry.2⟩) ⟨ref, row⟩
      (later.map fun entry => ⟨entry.1, entry.2⟩) (by rw [hsplit]; simp)
    rw [List.nil_append, List.map_map] at hmeets
    exact (meetsConstraints_iff hblockers hsplit).mp hmeets relation hrelation
  · intro hconsistent before statement after hsplit
    obtain ⟨prior, rest, hrows, rfl, hrest⟩ := List.map_eq_append_iff.mp hsplit
    obtain ⟨⟨ref, row⟩, later, rfl, rfl, -⟩ := List.map_eq_cons_iff.mp hrest
    rw [List.nil_append, List.map_map]
    exact (meetsConstraints_iff hblockers hrows).mpr (hconsistent ref)

theorem exists_executable [Text.CaseMap] {nfc : Nfc} {request : FixtureRequest}
    (h : (compile nfc request).toOption.map (·.status) = some .executable) :
    ∃ bundle, compile nfc request = .ok bundle ∧ bundle.status = .executable := by
  cases hbundle : compile nfc request with
  | error e => simp [hbundle, Except.toOption] at h
  | ok bundle => exact ⟨bundle, rfl, by simpa [hbundle, Except.toOption] using h⟩

local instance asciiFixtures : Text.CaseMap := Text.asciiCase

/-- `CUSTOMER_ID BIGINT NOT NULL` and the like. -/
def bigIntColumn (name : String) : ColumnDefinition :=
  { columnName := name, sqlType := { family := .bigInteger }, nullable := false }

def customerTable : RelationDefinition where
  schemaName := "CLAIMS"
  columns := [bigIntColumn "CUSTOMER_ID"]
  primaryKey := ["CUSTOMER_ID"]

def claimCustomerKey : ForeignKeyDefinition where
  localColumns := ["CUSTOMER_ID"]
  referencedSchema := some "CLAIMS"
  referencedRelation := "CUSTOMER"
  referencedColumns := ["CUSTOMER_ID"]

def claimTable : RelationDefinition where
  schemaName := "CLAIMS"
  columns := [bigIntColumn "CLAIM_ID", bigIntColumn "CUSTOMER_ID"]
  primaryKey := ["CLAIM_ID"]
  foreignKeys := [claimCustomerKey]

def claimsCatalog : CatalogSnapshot where
  relations := [⟨"CLAIMS.CUSTOMER", .table, customerTable⟩, ⟨"CLAIMS.CLAIM", .table, claimTable⟩]
  unique := by decide +kernel

def claimAndCustomer : FixtureRequest where
  catalog := claimsCatalog
  relationRefs := ["CLAIMS.CUSTOMER", "CLAIMS.CLAIM"]

/-- A database without defaults that takes integers of 64 bits for `BIGINT`. -/
def plainDbms : Dbms where
  filled := fun _ _ => .null
  accepts := fun type value =>
    match type.family, value with
    | .bigInteger, .int n => -2 ^ 63 ≤ n ∧ n < 2 ^ 63
    | _, _ => false

theorem claimAndCustomer_runsClean_iff : ∃ bundle, compile asciiNfc claimAndCustomer = .ok bundle ∧
    bundle.status = .executable ∧ (RunsClean plainDbms claimAndCustomer [] bundle.setup ↔
      claimAndCustomer.Consistent plainDbms) := by
  obtain ⟨bundle, hbundle, hstatus⟩ :=
    @exists_executable _ asciiNfc claimAndCustomer (by decide +kernel)
  exact ⟨bundle, hbundle, hstatus,
    compile_setup_runsClean_iff asciiNfc plainDbms claimAndCustomer bundle hbundle hstatus⟩

/-- A claim without its customer. -/
def claimAlone : FixtureRequest where
  catalog := claimsCatalog
  relationRefs := ["CLAIMS.CLAIM"]

/-- The claim refers to a customer that is not there, and the bundle is executable. -/
theorem claimAlone_violates_key : ∃ bundle, compile asciiNfc claimAlone = .ok bundle ∧
    bundle.status = .executable ∧ ∀ dbms, ¬ RunsClean dbms claimAlone [] bundle.setup := by
  obtain ⟨bundle, hbundle, hstatus⟩ := @exists_executable _ asciiNfc claimAlone (by decide +kernel)
  have hsetup : claimAlone.setup =
      [⟨"CLAIMS.CLAIM", [("CLAIM_ID", .int 1), ("CUSTOMER_ID", .int 1)]⟩] := by
    decide +kernel
  have hselected : claimAlone.selected.lookup "CLAIMS.CLAIM" = some claimTable := by
    decide +kernel
  have hname : Text.uppercased "CUSTOMER_ID" = "CUSTOMER_ID" := by decide +kernel
  refine ⟨bundle, hbundle, hstatus, fun dbms hclean => ?_⟩
  rw [(compile_executable hbundle hstatus).2.1, hsetup] at hclean
  obtain ⟨hkeys, -⟩ := hclean.1 claimTable hselected
  rcases hkeys claimCustomerKey (by simp [claimTable]) with ⟨c, hc, hnull⟩ | ⟨parent, hparent, -⟩
  · obtain rfl : c = "CUSTOMER_ID" := by simpa [claimCustomerKey] using hc
    simp [Dbms.store, hname, List.lookup_cons] at hnull
  · simp at hparent

end AtlasDb.Fixtures
