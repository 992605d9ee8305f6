import AtlasDb.Core.CanonicalJson
import AtlasDb.Lib.Assoc
import AtlasDb.Lib.Layers
import Mathlib.Data.String.Basic

/-!
# Fixture compiler

`testkit/fixture_compiler.py: ExecutableRelationalFixtureCompiler.compile` over the catalog of
`catalog/models.py` and `type_system/models.py`: one row for each requested table, parents first,
and the SQL that inserts the rows and deletes them again. Statements are kept as data next to their
text. The bundle's id and digests are left out, but not that the digest raises on a row canonical
JSON does not admit.
-/

namespace AtlasDb.Fixtures

open Core Lib

/-! ## Catalog -/

inductive SqlTypeFamily
  | smallInteger | integer | bigInteger | decimal | floatingPoint | character |
  graphic | date | time
  | timestamp | boolean | binary | lob | xml | distinct | unknown
deriving DecidableEq, Repr

def SqlTypeFamily.value : SqlTypeFamily → String
  | .smallInteger => "SMALL_INTEGER"
  | .integer => "INTEGER"
  | .bigInteger => "BIG_INTEGER"
  | .decimal => "DECIMAL"
  | .floatingPoint => "FLOATING_POINT"
  | .character => "CHARACTER"
  | .graphic => "GRAPHIC"
  | .date => "DATE"
  | .time => "TIME"
  | .timestamp => "TIMESTAMP"
  | .boolean => "BOOLEAN"
  | .binary => "BINARY"
  | .lob => "LOB"
  | .xml => "XML"
  | .distinct => "DISTINCT"
  | .unknown => "UNKNOWN"

structure CanonicalSqlType where
  family : SqlTypeFamily
  length : Option Nat := none
  precision : Option Nat := none
  scale : Option Nat := none
deriving DecidableEq, Repr

structure ColumnDefinition where
  columnName : String
  sqlType : CanonicalSqlType
  nullable : Bool
  defaultExpression : Option String := none
  generated : Bool := false
  identityColumn : Bool := false
deriving DecidableEq, Repr

structure ForeignKeyDefinition where
  localColumns : List String
  referencedSchema : Option String := none
  referencedRelation : String
  referencedColumns : List String
deriving DecidableEq, Repr

structure RelationDefinition where
  schemaName : String
  columns : List ColumnDefinition
  primaryKey : List String := []
  uniqueConstraints : List (List String) := []
  foreignKeys : List ForeignKeyDefinition := []
  checkConstraints : List String := []
deriving DecidableEq, Repr

inductive RelationKind
  | table | view | materializedQueryTable | synonym | nickname | tableFunction | temporaryTable
  | unknown
deriving DecidableEq, Repr

def RelationKind.value : RelationKind → String
  | .table => "TABLE"
  | .view => "VIEW"
  | .materializedQueryTable => "MATERIALIZED_QUERY_TABLE"
  | .synonym => "SYNONYM"
  | .nickname => "NICKNAME"
  | .tableFunction => "TABLE_FUNCTION"
  | .temporaryTable => "TEMPORARY_TABLE"
  | .unknown => "UNKNOWN"

structure CatalogRelation where
  relationRef : String
  relationKind : RelationKind
  definition : RelationDefinition
deriving DecidableEq, Repr

/-- The relations of a snapshot, no two under one name. -/
structure CatalogSnapshot [Text.CaseMap] where
  relations : List CatalogRelation
  unique : (relations.map fun r => Text.uppercased r.relationRef).Nodup

/-! ## Values and literals -/

/-- A Python value as far as `_literal` and `_project` tell them apart: values other than truth
values and integers come with the text `str` or `isoformat` gives for them, and where canonical JSON
refuses some of a kind (NaN, naive timestamps, types it does not know) with whether it admits the
value. -/
inductive FixtureValue
  | null
  | bool (value : Bool)
  | int (value : Int)
  | number (text : String) (admitted : Bool)
  | timestamp (text : String) (admitted : Bool)
  | date (text : String)
  | text (text : String)
  | other (text : String) (admitted : Bool)
deriving DecidableEq, Repr

/-- `text.replace(c, c + c)` -/
def doubled (c : Char) (text : String) : String :=
  String.ofList (text.toList.flatMap fun d => if d = c then [c, c] else [d])

/-- `_literal`. -/
def literal : FixtureValue → String
  | .null => "NULL"
  | .bool value => if value then "TRUE" else "FALSE"
  | .int value => toString value
  | .number text _ => text
  | .timestamp text _ => "TIMESTAMP '" ++ text ++ "'"
  | .date text => "DATE '" ++ text ++ "'"
  | .text text | .other text _ => "'" ++ doubled '\'' text ++ "'"

/-- `_project` returns. -/
def FixtureValue.projects : FixtureValue → Bool
  | .number _ admitted | .timestamp _ admitted | .other _ admitted => admitted
  | _ => true

/-- What `compile` raises. -/
inductive FixtureCompilationError
  | unsafeIdentifier (value : String)
  | notSchemaQualified (ref : String)
  | notCanonical
  | missingSql
deriving DecidableEq, Repr

/-- The name `_quote_identifier` puts in quotes. -/
def identifier (value : String) : String := String.ofList (Text.strip value.toList)

/-- `_quote_identifier`. -/
def quoteIdentifier (value : String) : Except FixtureCompilationError String :=
  let text := identifier value
  if text = "" ∨
    text.toList.any (· ∈ ['\x00', '\r', '\n', ';']) then .error (.unsafeIdentifier value)
  else .ok ("\"" ++ doubled '"' text ++ "\"")

/-- `[part for part in ref.split(".") if part]` -/
def refParts (ref : String) : List String :=
  ((ref.toList.splitOn '.').filter (· ≠ [])).map String.ofList

/-- `_qualified`. -/
def qualified (ref : String) : Except FixtureCompilationError String :=
  match refParts ref with
  | [schema, name] => do
      let schema ← quoteIdentifier schema
      let name ← quoteIdentifier name
      return schema ++ "." ++ name
  | _ => .error (.notSchemaQualified ref)

/-- `f"{n:02d}"` -/
def twoDigits (n : Nat) : String := if n < 10 then "0" ++ toString n else toString n

/-- `f"{n:02x}"` -/
def twoHexDigits (n : Nat) : String :=
  let digits := String.ofList (Nat.toDigits 16 n)
  if n < 16 then "0" ++ digits else digits

/-- `_default_value`; `none` if there is no generator for the family. -/
def defaultValue (column : ColumnDefinition) (seed : Nat) : Option FixtureValue :=
  match column.sqlType.family with
  | .smallInteger | .integer | .bigInteger => some (.int seed)
  | .decimal | .floatingPoint => some (.number (toString seed) true)
  | .character | .graphic =>
    let limit := column.sqlType.length.getD 64
    let text := "ATLAS_" ++ column.columnName ++ "_" ++ toString seed
    some (.text (String.ofList (text.toList.take limit)))
  | .boolean => some (.bool false)
  | .date => some (.date ("2000-01-" ++ twoDigits (min seed 28)))
  | .time => some (.text ("00:00:" ++ twoDigits (seed % 60)))
  -- a datetime without a time zone
  | .timestamp => some (.timestamp ("2000-01-01 00:00:" ++ twoDigits (seed % 60)) false)
  | .binary => some (.text (twoHexDigits seed))
  | .lob | .xml | .distinct | .unknown => none

/-! ## Request -/

structure ApprovedFixtureValue where
  relationRef : String
  columnName : String
  canonicalValue : FixtureValue
  authorityRef : String
deriving DecidableEq, Repr

/-- The arguments of `compile`. -/
structure FixtureRequest [Text.CaseMap] where
  catalog : CatalogSnapshot
  relationRefs : List String
  approvedValues : List ApprovedFixtureValue := []
  acknowledgedCheckConstraints : List String := []

/-- The reasons not to build the rows. -/
inductive Blocker
  | relationUnresolved (ref : String)
  | fixtureTargetNotBaseTable (ref : String) (kind : RelationKind)
  | foreignKeyCycle
  | checkConstraint (ref constraint : String)
  | parentKeyValueUnavailable (ref name parentRef parentColumn : String)
  | noGenerator (family : SqlTypeFamily) (columnName : String)
  | cleanupKeyUnavailable (ref : String)
  | cleanupKeyValueUnavailable (ref : String)
deriving DecidableEq, Repr

def Blocker.text : Blocker → String
  | .relationUnresolved ref => "RELATION_UNRESOLVED:" ++ ref
  | .fixtureTargetNotBaseTable ref kind =>
    "FIXTURE_TARGET_NOT_BASE_TABLE:" ++ ref ++ ":" ++ kind.value
  | .foreignKeyCycle => "FOREIGN_KEY_CYCLE_REQUIRES_CUSTOM_FIXTURE"
  | .checkConstraint ref constraint =>
    "CHECK_CONSTRAINT_REQUIRES_ACKNOWLEDGEMENT:" ++ ref ++ ":" ++ constraint
  | .parentKeyValueUnavailable ref name parentRef parentColumn =>
    "PARENT_KEY_VALUE_UNAVAILABLE:" ++ ref ++ "." ++ name ++ ":" ++ parentRef ++ "." ++ parentColumn
  | .noGenerator family columnName =>
    "No deterministic value generator for " ++ family.value ++ " column " ++ columnName ++ "."
  | .cleanupKeyUnavailable ref => "CLEANUP_KEY_UNAVAILABLE:" ++ ref
  | .cleanupKeyValueUnavailable ref => "CLEANUP_KEY_VALUE_UNAVAILABLE:" ++ ref

namespace FixtureRequest

variable [Text.CaseMap] (request : FixtureRequest)

/-- `requested`: blank references dropped, each one at its first place. -/
def requested : List String :=
  ((request.relationRefs.filter fun ref => Text.strip ref.toList ≠ []).map
    Text.uppercased).eraseDups

/-- `relation_map.get(ref)` -/
def relationAt (ref : String) : Option CatalogRelation :=
  request.catalog.relations.find? fun r => Text.uppercased r.relationRef = ref

/-- `values`: of two approvals for one column the later one counts. -/
def approvals : List ((String × String) × ApprovedFixtureValue) :=
  request.approvedValues.reverse.map fun v =>
    ((Text.uppercased v.relationRef, Text.uppercased v.columnName), v)

def approved (ref name : String) : Option FixtureValue :=
  (request.approvals.lookup (ref, name)).map ApprovedFixtureValue.canonicalValue

def acknowledgements : List String :=
  (request.acknowledgedCheckConstraints.map identifier).filter (· ≠ "")

/-- The requested base tables with their definitions. -/
def selected : List (String × RelationDefinition) :=
  request.requested.filterMap fun ref =>
    (request.relationAt ref).bind fun r =>
      if r.relationKind = .table then some (ref, r.definition) else none

def selectionBlockers : List Blocker :=
  request.requested.filterMap fun ref =>
    match request.relationAt ref with
    | none => some (.relationUnresolved ref)
    | some r =>
      if r.relationKind = .table then none
      else some (.fixtureTargetNotBaseTable ref r.relationKind)

end FixtureRequest

/-! ## Foreign keys and order -/

/-- `sorted` on texts. -/
def FixtureRequest.sorted (texts : List String) : List String :=
  texts.mergeSort fun a b => decide (a ≤ b)

/-- The table a foreign key refers to. -/
def ForeignKeyDefinition.parent [Text.CaseMap] (fk : ForeignKeyDefinition)
    (relation : RelationDefinition) : String :=
  let schema := if fk.referencedSchema.getD "" = "" then relation.schemaName
    else fk.referencedSchema.getD ""
  Text.uppercased schema ++ "." ++ Text.uppercased fk.referencedRelation

namespace FixtureRequest

variable [Text.CaseMap] (request : FixtureRequest)

def isSelected (ref : String) : Bool := (request.selected.lookup ref).isSome

/-- The foreign keys to requested tables. -/
def followedKeys (relation : RelationDefinition) : List ForeignKeyDefinition :=
  relation.foreignKeys.filter fun fk => request.isSelected (fk.parent relation)

def dependencies (relation : RelationDefinition) : List String :=
  (request.followedKeys relation).map fun fk => fk.parent relation

/-- The pairs a foreign key adds to `fk_mappings`. -/
def keyPairs (relation : RelationDefinition) (fk : ForeignKeyDefinition) :
    List (String × String × String) :=
  (fk.localColumns.zip fk.referencedColumns).map fun pair =>
    (Text.uppercased pair.1, fk.parent relation, Text.uppercased pair.2)

/-- `fk_mappings.get((ref, name))`: the last foreign key over the column counts. -/
def parentMapping (relation : RelationDefinition) (name : String) : Option (String × String) :=
  ((request.followedKeys relation).flatMap (keyPairs relation)).reverse.lookup name

/-- The tables in the order of the inserts, and whether their keys form a cycle. -/
def ordering : List String × Bool :=
  layers sorted request.selected.length
    (request.selected.map fun entry => (entry.1, request.dependencies entry.2))

def ordered : List String := request.ordering.1

end FixtureRequest

/-! ## Rows -/

/-- A dictionary from column names to values, in the order of insertion. -/
abbrev Row := List (String × FixtureValue)

/-- What the loop over the columns does with one of them. -/
inductive ColumnPlan
  /-- left out of the statement -/
  | skip
  | write (value : FixtureValue)
  /-- take the value of a column of a parent row -/
  | inherit (parentRef parentColumn : String)
  | block (blocker : Blocker)
deriving DecidableEq, Repr

namespace FixtureRequest

variable [Text.CaseMap] (request : FixtureRequest)

/-- The branches for one column. -/
def columnPlan (ref : String) (relation : RelationDefinition) (seed : Nat)
    (column : ColumnDefinition) : ColumnPlan :=
  let name := Text.uppercased column.columnName
  if column.generated || column.identityColumn then .skip
  else
    match request.approved ref name with
    | some value => .write value
    | none =>
      match request.parentMapping relation name with
      | some (parentRef, parentColumn) => .inherit parentRef parentColumn
      | none =>
        if column.defaultExpression.isSome then .skip
        else if column.nullable then .write .null
        else
          match defaultValue column seed with
          | some value => .write value
          | none => .block (.noGenerator column.sqlType.family column.columnName)

end FixtureRequest

/-- One turn of the loop over the columns; `rows` are those of the tables before. -/
def ColumnPlan.run (rows : List (String × Row)) (ref name : String) :
    ColumnPlan → Row × List Blocker → Row × List Blocker
  | .skip, (row, blockers) => (row, blockers)
  | .write value, (row, blockers) => (setEntry row name value, blockers)
  | .inherit parentRef parentColumn, (row, blockers) =>
    match ((rows.lookup parentRef).getD []).lookup parentColumn with
    | none =>
      (row, blockers ++ [.parentKeyValueUnavailable ref name parentRef parentColumn])
    | some value => (setEntry row name value, blockers)
  | .block blocker, (row, blockers) => (row, blockers ++ [blocker])

/-- `relation.primary_key or relation.unique_constraints[0]`, empty if there is none. -/
def RelationDefinition.cleanupKey (relation : RelationDefinition) : List String :=
  if relation.primaryKey ≠ [] then relation.primaryKey else relation.uniqueConstraints.headD []

def RelationDefinition.cleanupBlockers [Text.CaseMap] (relation : RelationDefinition) (ref : String)
    (row : Row) : List Blocker :=
  if relation.cleanupKey = [] then [.cleanupKeyUnavailable ref]
  else if relation.cleanupKey.any fun c => (row.lookup (Text.uppercased c)).isNone then
    [.cleanupKeyValueUnavailable ref]
  else []

namespace FixtureRequest

variable [Text.CaseMap] (request : FixtureRequest)

def checkBlockers (ref : String) (relation : RelationDefinition) : List Blocker :=
  (relation.checkConstraints.filter (· ∉ request.acknowledgements)).map (.checkConstraint ref)

/-- The loop over the columns of a table. -/
def buildRow (rows : List (String × Row)) (ref : String) (relation : RelationDefinition)
    (seed : Nat) : Row × List Blocker :=
  relation.columns.foldl
    (fun state column =>
      (request.columnPlan ref relation seed column).run rows ref
        (Text.uppercased column.columnName) state)
    ([], [])

/-- The loop over the tables from `seed` on: their rows and what blocks. -/
def buildRows : Nat → List String → List (String × Row) → List (String × Row) × List Blocker
  | _, [], rows => (rows, [])
  | seed, ref :: refs, rows =>
    match request.selected.lookup ref with
    | none => buildRows (seed + 1) refs rows
    | some relation =>
      let (row, blocked) := request.buildRow rows ref relation seed
      let (rows, blockers) := buildRows (seed + 1) refs (rows ++ [(ref, row)])
      (rows, request.checkBlockers ref relation ++ blocked ++
        relation.cleanupBlockers ref row ++ blockers)

def rowValues : List (String × Row) := (request.buildRows 1 request.ordered []).1

def blockers : List Blocker :=
  request.selectionBlockers ++ (if request.ordering.2 then [.foreignKeyCycle] else []) ++
    (request.buildRows 1 request.ordered []).2

end FixtureRequest

/-! ## Statements -/

/-- `INSERT INTO ref (columns) VALUES (values)`. -/
structure Insert where
  ref : String
  row : Row
deriving DecidableEq, Repr

/-- `DELETE FROM ref WHERE column = value AND ...`. -/
structure Delete where
  ref : String
  key : List (String × FixtureValue)
deriving DecidableEq, Repr

def Insert.sql (statement : Insert) : Except FixtureCompilationError String := do
  let table ← qualified statement.ref
  let columns ← statement.row.mapM fun entry => quoteIdentifier entry.1
  let values := statement.row.map fun entry => literal entry.2
  return "INSERT INTO " ++ table ++ " (" ++ ", ".intercalate columns ++ ") VALUES (" ++
    ", ".intercalate values ++ ");"

def Delete.sql (statement : Delete) : Except FixtureCompilationError String := do
  let tests ← statement.key.mapM fun entry => do
    let column ← quoteIdentifier entry.1
    return column ++ " = " ++ literal entry.2
  let table ← qualified statement.ref
  return "DELETE FROM " ++ table ++ " WHERE " ++ " AND ".intercalate tests ++ ";"

inductive FixtureBundleStatus
  | executable | blocked
deriving DecidableEq, Repr

structure ExecutableFixtureBundle where
  status : FixtureBundleStatus
  inputAuthorityRefs : List String
  setup : List Insert
  teardown : List Delete
  setupSql : List String
  teardownSql : List String
  blockers : List String
deriving DecidableEq, Repr

namespace FixtureRequest

variable [Text.CaseMap] (request : FixtureRequest)

def authorityRefs : List String :=
  sorted ((request.approvals.filter fun entry =>
    request.approvals.lookup entry.1 = some entry.2).map fun entry =>
      entry.2.authorityRef).eraseDups

def setup : List Insert := request.rowValues.map fun entry => ⟨entry.1, entry.2⟩

/-- The statement that deletes the row of a table. -/
def cleanup (ref : String) (row : Row) : Delete :=
  let key := ((request.selected.lookup ref).map RelationDefinition.cleanupKey).getD []
  ⟨ref, key.map fun c => (c, (row.lookup (Text.uppercased c)).getD .null)⟩

def teardown : List Delete :=
  request.rowValues.reverse.map fun entry => request.cleanup entry.1 entry.2

end FixtureRequest

/-- `_project` on the values of a `FixtureRow` returns: each value is admitted, and no two names are
one after normalisation. -/
def rowProjects (nfc : Nfc) (row : Row) : Bool :=
  row.all (fun entry => entry.2.projects) && (row.map fun entry => nfc.normalize entry.1).Nodup

/-- `ExecutableRelationalFixtureCompiler.compile`, with the digest of the payload and the check of
the bundle at its end. -/
def compile [Text.CaseMap] (nfc : Nfc) (request : FixtureRequest) :
    Except FixtureCompilationError ExecutableFixtureBundle :=
  if request.blockers = [] then do
    let setupSql ← request.setup.mapM Insert.sql
    let teardownSql ← request.teardown.mapM Delete.sql
    if ¬ (request.setup.all fun statement => rowProjects nfc statement.row) then
      .error .notCanonical
    else if setupSql = [] ∨ teardownSql = [] then .error .missingSql
    else
      .ok {
        status := .executable
        inputAuthorityRefs := request.authorityRefs
        setup := request.setup
        teardown := request.teardown
        setupSql
        teardownSql
        blockers := [] }
  else
    .ok {
      status := .blocked
      inputAuthorityRefs := request.authorityRefs
      setup := []
      teardown := []
      setupSql := []
      teardownSql := []
      blockers := FixtureRequest.sorted (request.blockers.map Blocker.text).eraseDups }

/-- An executable bundle has the statements of the request, and nothing blocked it. -/
theorem compile_executable [Text.CaseMap] {nfc : Nfc} {request : FixtureRequest}
    {bundle : ExecutableFixtureBundle} (h : compile nfc request = .ok bundle)
    (hstatus : bundle.status = .executable) :
    request.blockers = [] ∧ bundle.setup = request.setup ∧ bundle.teardown = request.teardown := by
  rw [compile] at h
  by_cases hblockers : request.blockers = []
  · rw [if_pos hblockers] at h
    cases hsetup : request.setup.mapM Insert.sql with
    | error e => simp [hsetup, bind, Except.bind] at h
    | ok setupSql =>
      cases hteardown : request.teardown.mapM Delete.sql with
      | error e => simp [hsetup, hteardown, bind, Except.bind] at h
      | ok teardownSql =>
        simp only [hsetup, hteardown, bind, Except.bind] at h
        split at h
        · cases h
        · split at h
          · cases h
          · cases h
            exact ⟨hblockers, rfl, rfl⟩
  · rw [if_neg hblockers] at h
    cases h
    cases hstatus

end AtlasDb.Fixtures
