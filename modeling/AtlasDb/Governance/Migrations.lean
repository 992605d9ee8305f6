import AtlasDb.Core.CanonicalJson
import AtlasDb.Lib.Writers
import Mathlib.Data.List.Nodup

/-!
# The migration runner

`governance/adapters/sqlite.py: GovernanceStore.initialize`. The manifest and the files are
validated first; then one `BEGIN IMMEDIATE` transaction checks the ledger
`governance_schema_migrations` against the manifest, applies what is missing statement by statement,
records it, checks the schema and commits; WAL mode is negotiated after the commit.

The content of a database is the parameter `δ`, with what SQLite does to it collected in `Sqlite`. A
`Snapshot` adds a ghost, the statements that were executed. Every statement is a session of its own,
so a call may fail at any of them and other calls may act between any two.
-/

namespace AtlasDb.Governance.Migrations

open Core Lib

/-! ## Data -/

/-- A row of `governance_schema_migrations`. -/
structure LedgerRow where
  migrationId : String
  migrationDigest : String
  previousMigrationDigest : Option String
  appliedAt : String
deriving DecidableEq

/-- An entry of `manifest["migrations"]`. -/
structure ManifestItem where
  migrationId : String
  filename : String
  digest : String
  previousMigrationDigest : Option String
deriving DecidableEq

/-- A migration file: what `read_bytes` and `read_text` return. -/
structure MigrationFile where
  octets : List Nat
  text : List Char
deriving DecidableEq

/-- An entry of `validated`, with the file its path names. -/
structure Validated where
  item : ManifestItem
  file : MigrationFile
  actual : String
deriving DecidableEq

inductive InitializeError where
  /-- `GovernanceStoreError`. -/
  | governance (message : String)
  /-- `sqlite3.OperationalError` and its siblings. -/
  | sqlite (message : String)
  /-- `FileNotFoundError`. -/
  | missingFile (filename : String)
deriving DecidableEq

/-- What a statement does to the transaction of its connection. The `sqlite3` module opens one
before a statement that modifies rows; any other statement outside a transaction commits by
itself. -/
inductive StatementKind where
  | begin
  | commit
  | rollback
  | savepoint
  | dml
  | other
deriving DecidableEq

/-- SQLite, as the runner uses it on contents of type `δ`. -/
structure Sqlite (δ : Type) where
  /-- `sqlite3.complete_statement`. -/
  completeStatement : List Char → Bool
  kind : List Char → StatementKind
  /-- The effect of a statement that is no transaction control. -/
  run : List Char → δ → Except String δ
  /-- The rows of the ledger by rowid; `none` if there is no such table. -/
  ledger : δ → Option (Except String (List LedgerRow))
  /-- `INSERT INTO governance_schema_migrations`. -/
  insertLedger : LedgerRow → δ → Except String δ
  /-- The names `PRAGMA table_info(governance_artifacts)` lists. -/
  artifactColumns : δ → List String
  /-- The answer to `PRAGMA journal_mode = WAL`. -/
  journalMode : δ → Except String String

/-! ## Statements of a file -/

/-- `str.splitlines(keepends=True)`. `line` is the line read so far, backwards. -/
def splitlinesAux (line : List Char) : List Char → List (List Char)
  | [] => if line = [] then [] else [line.reverse]
  | '\r' :: '\n' :: cs => ('\n' :: '\r' :: line).reverse :: splitlinesAux [] cs
  | c :: cs =>
    if Text.isLineBreak c then (c :: line).reverse :: splitlinesAux [] cs
    else splitlinesAux (c :: line) cs

def splitlines (text : List Char) : List (List Char) := splitlinesAux [] text

/-- The text after a match of `^\s*--.*$` at the start of a line. -/
def afterLineComment (text : List Char) : Option (List Char) :=
  match text.dropWhile Text.isSpace with
  | '-' :: '-' :: cs => some (cs.dropWhile (· ≠ '\n'))
  | _ => none

/-- `re.sub(r"(?m)^\s*--.*$", "", text)`. -/
def subLineComments : Nat → Bool → List Char → List Char
  | 0, _, text => text
  | _ + 1, _, [] => []
  | fuel + 1, lineStart, c :: cs =>
    match lineStart, afterLineComment (c :: cs) with
    | true, some rest => subLineComments fuel false rest
    | _, _ => c :: subLineComments fuel (c = '\n') cs

def withoutLineComments (text : List Char) : List Char := subLineComments text.length true text

/-- `re.match(r"([A-Za-z]+)", text)`, in upper case. -/
def firstWord (text : List Char) : List Char := Text.upper (text.takeWhile Char.isAlpha)

def transactionControl : List (List Char) :=
  ["BEGIN", "COMMIT", "END", "ROLLBACK", "SAVEPOINT", "RELEASE"].map String.toList

/-- `GovernanceStore._migration_statements`, with the lines read so far that end no statement. -/
def migrationStatementsAux (complete : List Char → Bool) (migrationId : String)
    (buffer : List Char) : List (List Char) → Except InitializeError (List (List Char))
  | [] =>
    if Text.strip buffer ≠ [] then
      .error (.governance ("Migration contains incomplete SQL: " ++ migrationId))
    else .ok []
  | line :: lines =>
    let candidate := Text.strip (buffer ++ line)
    if candidate = [] ∨ complete candidate = false then
      migrationStatementsAux complete migrationId (buffer ++ line) lines
    else
      let normalized := Text.strip (withoutLineComments candidate)
      if firstWord normalized ∈ transactionControl then
        .error (.governance ("Migration contains transaction control: " ++ migrationId))
      else do
        let rest ← migrationStatementsAux complete migrationId [] lines
        .ok (if normalized = [] then rest else candidate :: rest)

def migrationStatements (complete : List Char → Bool) (text : List Char) (migrationId : String) :
    Except InitializeError (List (List Char)) :=
  migrationStatementsAux complete migrationId [] (splitlines text)

/-! ## Validation -/

/-- The first loop of `initialize`. -/
def validateManifest (complete : List Char → Bool) (files : String → Option MigrationFile)
    (expectedPrevious : Option String) :
    List ManifestItem → Except InitializeError (List Validated)
  | [] => .ok []
  | item :: items =>
    if item.previousMigrationDigest ≠ expectedPrevious then
      .error (.governance "Migration manifest digest chain is invalid")
    else
      match files item.filename with
      | none => .error (.missingFile item.filename)
      | some file =>
        let actual := sha256Digest file.octets
        if actual ≠ item.digest then
          .error (.governance ("Migration digest mismatch: " ++ item.migrationId))
        else do
          let _ ← migrationStatements complete file.text item.migrationId
          let rest ← validateManifest complete files (some actual) items
          .ok (⟨item, file, actual⟩ :: rest)

/-- `manifest_by_id.get(migration_id)`: of several entries with one id the last. -/
def manifestById (validated : List Validated) (migrationId : String) : Option Validated :=
  validated.reverse.find? fun v => v.item.migrationId = migrationId

/-- The checks `_validate_applied_migration_prefix` makes on one row. -/
def checkApplied (validated : List Validated) (index : Nat) (row : LedgerRow) :
    Except InitializeError Unit :=
  match manifestById validated row.migrationId with
  | none => .error (.governance
      ("Unknown applied migration is not present in manifest: " ++ row.migrationId))
  | some expected =>
    let expectedId := validated[index]?.map fun v => v.item.migrationId
    if some row.migrationId ≠ expectedId then
      .error (.governance ("Applied migrations are not a contiguous manifest prefix: expected " ++
        expectedId.getD "None" ++ ", found " ++ row.migrationId))
    else if row.migrationDigest ≠ expected.actual ∨
        row.previousMigrationDigest ≠ expected.item.previousMigrationDigest then
      .error (.governance ("Applied migration differs from manifest: " ++ row.migrationId))
    else .ok ()

def checkAllApplied (validated : List Validated) :
    Nat → List LedgerRow → Except InitializeError Unit
  | _, [] => .ok ()
  | index, row :: rows => do
      checkApplied validated index row
      checkAllApplied validated (index + 1) rows

/-- `GovernanceStore._validate_applied_migration_prefix`; of `applied` only the keys are used. -/
def validateAppliedMigrationPrefix (validated : List Validated)
    (ledger : Option (Except String (List LedgerRow))) : Except InitializeError (List String) :=
  match ledger with
  | none => .ok []
  | some (.error message) => .error (.sqlite message)
  | some (.ok rows) => do
      checkAllApplied validated 0 rows
      .ok (rows.map LedgerRow.migrationId)

/-! ## The runner -/

/-- The content of a database, and which statements of which migrations were executed to get
there. -/
structure Snapshot (δ : Type) where
  data : δ
  ran : List (String × Nat)
deriving DecidableEq

variable {δ : Type}

/-- A connection to the database. -/
abbrev Step (δ α : Type) : Type := Txn (Connection (Snapshot δ)) InitializeError α

abbrev Call (δ α : Type) : Type 1 := Client (Connection (Snapshot δ)) InitializeError α

/-- A query. -/
def query {α : Type} (read : δ → Except InitializeError α) : Step δ α := fun c =>
  match read c.content.data with
  | .ok a => .ok (a, c)
  | .error e => .error e

/-- `connection.execute` of a statement with a given effect. -/
def execute (kind : StatementKind) (effect : Snapshot δ → Except String (Snapshot δ)) :
    Step δ Unit := fun c =>
  match kind, c.working with
  | .begin, none => .ok ((), ⟨c.committed, some c.committed⟩)
  | .begin, some _ => .error (.sqlite "cannot start a transaction within a transaction")
  | .commit, some w => .ok ((), ⟨w, none⟩)
  | .commit, none => .error (.sqlite "cannot commit - no transaction is active")
  | .rollback, some _ => .ok ((), ⟨c.committed, none⟩)
  | .rollback, none => .error (.sqlite "cannot rollback - no transaction is active")
  | kind, working =>
    match effect c.content with
    | .error message => .error (.sqlite message)
    | .ok w =>
      if working.isSome ∨ kind = .dml ∨ kind = .savepoint then .ok ((), ⟨c.committed, some w⟩)
      else .ok ((), ⟨w, none⟩)

/-- The effect of statement number `index` of a migration. -/
def statementEffect (sqlite : Sqlite δ) (migrationId : String) (index : Nat) (text : List Char)
    (s : Snapshot δ) : Except String (Snapshot δ) := do
  let data ← sqlite.run text s.data
  .ok ⟨data, s.ran ++ [(migrationId, index)]⟩

def insertEffect (sqlite : Sqlite δ) (row : LedgerRow) (s : Snapshot δ) :
    Except String (Snapshot δ) := do
  let data ← sqlite.insertLedger row s.data
  .ok { s with data := data }

/-- `for statement in ...: connection.execute(statement)`. -/
def executeStatements (sqlite : Sqlite δ) (migrationId : String) :
    Nat → List (List Char) → Call δ Unit
  | _, [] => pure ()
  | index, text :: texts => do
      Client.transaction
        (execute (sqlite.kind text) (statementEffect sqlite migrationId index text))
      executeStatements sqlite migrationId (index + 1) texts

/-- `GovernanceStore._migration_is_structurally_satisfied`. -/
def migrationIsStructurallySatisfied (sqlite : Sqlite δ) (migrationId : String) (d : δ) : Bool :=
  migrationId = "0002_local_non_authoritative_scope" &&
    (sqlite.artifactColumns d).contains "authority_scope"

def tableExists (sqlite : Sqlite δ) (migrationId : String) (d : δ) : Except InitializeError Unit :=
  if (sqlite.ledger d).isSome then .ok ()
  else .error (.governance ("Migration did not create tracking table: " ++ migrationId))

/-- One migration that is not in the ledger. -/
def applyMigration (sqlite : Sqlite δ) (appliedAt : String) (v : Validated) : Call δ Unit := do
  let migrationId := v.item.migrationId
  let satisfied ← Client.transaction
    (query fun d => .ok (migrationIsStructurallySatisfied sqlite migrationId d))
  if satisfied then pure ()
  else do
    let statements ←
      Client.ofExcept (migrationStatements sqlite.completeStatement v.file.text migrationId)
    executeStatements sqlite migrationId 0 statements
  Client.transaction (query (tableExists sqlite migrationId))
  Client.transaction (execute .dml (insertEffect sqlite
    ⟨migrationId, v.actual, v.item.previousMigrationDigest, appliedAt⟩))

/-- The second loop of `initialize`. -/
def applyMigrations (sqlite : Sqlite δ) (appliedAt : String) :
    List String → List Validated → Call δ Unit
  | _, [] => pure ()
  | applied, v :: rest =>
    if v.item.migrationId ∈ applied then applyMigrations sqlite appliedAt applied rest
    else do
      applyMigration sqlite appliedAt v
      applyMigrations sqlite appliedAt (applied ++ [v.item.migrationId]) rest

/-- The mandatory columns, sorted. -/
def requiredColumns : List String :=
  ["artifact_id", "artifact_ref", "artifact_revision_id", "artifact_type", "authority_scope",
    "behavior_id", "content_digest", "created_at", "invalidates_machine_attestation",
    "parent_artifact_id", "payload_digest", "payload_json", "platform_governance_ref",
    "source_symbol_id", "symbol_lineage_id"]

/-- `GovernanceStore.assert_schema_guard`. -/
def assertSchemaGuard (sqlite : Sqlite δ) (d : δ) : Except InitializeError Unit :=
  let missing := requiredColumns.filter fun name => !(sqlite.artifactColumns d).contains name
  if missing ≠ [] then
    .error (.governance ("Governance schema missing mandatory columns: ['" ++
      String.intercalate "', '" missing ++ "']"))
  else .ok ()

/-- `GovernanceStore._ensure_wal_mode`, less the waiting. -/
def ensureWalMode (sqlite : Sqlite δ) : Call δ Unit :=
  Client.transaction (query fun d =>
    match sqlite.journalMode d with
    | .error message => .error (.sqlite message)
    | .ok mode =>
      if Text.upperString mode = "WAL" then .ok ()
      else .error (.governance "SQLite did not enter WAL journal mode"))

/-- What `initialize` does between BEGIN and COMMIT. -/
def migrate (sqlite : Sqlite δ) (validated : List Validated) (appliedAt : String) :
    Call δ Unit := do
  let applied ← Client.transaction
    (query fun d => validateAppliedMigrationPrefix validated (sqlite.ledger d))
  applyMigrations sqlite appliedAt applied validated
  Client.transaction (query (assertSchemaGuard sqlite))

/-- `GovernanceStore.initialize`. -/
def initializeStore (sqlite : Sqlite δ) (files : String → Option MigrationFile)
    (manifest : List ManifestItem) (appliedAt : String) : Call δ Unit := do
  let validated ← Client.ofExcept (validateManifest sqlite.completeStatement files none manifest)
  inTransaction (.sqlite "cannot start a transaction within a transaction")
    (migrate sqlite validated appliedAt) (ensureWalMode sqlite)

/-! ## The ledger and the manifest -/

/-- What a row of the ledger and an entry of the manifest have to agree on. -/
def LedgerRow.identity (row : LedgerRow) : String × String × Option String :=
  (row.migrationId, row.migrationDigest, row.previousMigrationDigest)

def Validated.identity (v : Validated) : String × String × Option String :=
  (v.item.migrationId, v.actual, v.item.previousMigrationDigest)

/-- The database has these rows in its ledger; without the table it has none. -/
def Holds (sqlite : Sqlite δ) (d : δ) (rows : List LedgerRow) : Prop :=
  sqlite.ledger d = some (.ok rows) ∨ sqlite.ledger d = none ∧ rows = []

/-- The ledger is a contiguous prefix of the manifest with matching digests. -/
def LedgerPrefix (sqlite : Sqlite δ) (validated : List Validated) (d : δ) : Prop :=
  ∃ rows, Holds sqlite d rows ∧
    rows.map LedgerRow.identity <+: validated.map Validated.identity

/-- The ledger is the whole manifest. -/
def LedgerWhole (sqlite : Sqlite δ) (validated : List Validated) (d : δ) : Prop :=
  ∃ rows, Holds sqlite d rows ∧ rows.map LedgerRow.identity = validated.map Validated.identity

/-- No two migrations have one id. -/
def DistinctIds (validated : List Validated) : Prop :=
  (validated.map fun v => v.item.migrationId).Nodup

instance (validated : List Validated) : Decidable (DistinctIds validated) :=
  inferInstanceAs (Decidable (List.Nodup _))

/-- A statement that leaves the transaction open, and the ledger as it is; it may create it
empty. -/
structure PlainStatement (sqlite : Sqlite δ) (text : List Char) : Prop where
  kind : sqlite.kind text = .dml ∨ sqlite.kind text = .other
  ledger : ∀ d d', sqlite.run text d = .ok d' →
    sqlite.ledger d' = sqlite.ledger d ∨ sqlite.ledger d = none ∧ sqlite.ledger d' = some (.ok [])

/-- All statements of the migrations are plain. -/
def PlainMigrations (sqlite : Sqlite δ) (validated : List Validated) : Prop :=
  ∀ v ∈ validated, ∀ statements,
    migrationStatements sqlite.completeStatement v.file.text v.item.migrationId = .ok statements →
    ∀ text ∈ statements, PlainStatement sqlite text

/-- An INSERT into the ledger that succeeds adds its row at the end, and nothing else happens to the
ledger: there are no triggers on it. -/
def InsertAppends (sqlite : Sqlite δ) : Prop :=
  ∀ row d d' rows, sqlite.ledger d = some (.ok rows) → sqlite.insertLedger row d = .ok d' →
    sqlite.ledger d' = some (.ok (rows ++ [row]))

theorem Holds.unique {sqlite : Sqlite δ} {d : δ} {rows rows' : List LedgerRow}
    (h : Holds sqlite d rows) (h' : Holds sqlite d rows') : rows = rows' := by
  rcases h with h | ⟨h, rfl⟩ <;> rcases h' with h' | ⟨h', rfl⟩
  · rw [h] at h'
    cases h'
    rfl
  · rw [h] at h'
    cases h'
  · rw [h] at h'
    cases h'
  · rfl

/-! ## What the validation of the ledger establishes -/

section Validation

variable {validated : List Validated}

theorem manifestById_eq (hids : DistinctIds validated) {index : Nat} {v : Validated}
    (h : validated[index]? = some v) : manifestById validated v.item.migrationId = some v := by
  unfold manifestById
  cases hfind : validated.reverse.find? fun u => u.item.migrationId = v.item.migrationId with
  | none =>
    have hmem : v ∈ validated.reverse := List.mem_reverse.2 (List.mem_of_getElem? h)
    have hne := List.find?_eq_none.1 hfind v hmem
    exact absurd (decide_eq_true rfl) hne
  | some u =>
    have hid : u.item.migrationId = v.item.migrationId := by simpa using List.find?_some hfind
    have hu : u ∈ validated := List.mem_reverse.1 (List.mem_of_find?_eq_some hfind)
    rw [List.inj_on_of_nodup_map hids hu (List.mem_of_getElem? h) hid]

/-- An applied migration is the one at its place. -/
theorem checkApplied_eq_ok (hids : DistinctIds validated) {index : Nat} {row : LedgerRow}
    (h : checkApplied validated index row = .ok ()) :
    validated[index]?.map Validated.identity = some row.identity := by
  unfold checkApplied at h
  cases hfind : manifestById validated row.migrationId with
  | none =>
    rw [hfind] at h
    cases h
  | some expected =>
    simp only [hfind] at h
    cases hv : validated[index]? with
    | none =>
      rw [hv] at h
      rw [if_pos (fun hid => nomatch hid)] at h
      cases h
    | some v =>
      rw [hv] at h
      by_cases hid : row.migrationId = v.item.migrationId
      · have hexpected : expected = v := by
          rw [hid, manifestById_eq hids hv] at hfind
          exact (Option.some.inj hfind).symm
        subst hexpected
        rw [if_neg (fun hne => hne (congrArg some hid))] at h
        by_cases hsame : row.migrationDigest = expected.actual ∧
            row.previousMigrationDigest = expected.item.previousMigrationDigest
        · show some expected.identity = some row.identity
          unfold Validated.identity LedgerRow.identity
          rw [hid, hsame.1, hsame.2]
        · rw [if_pos (by rwa [← not_and_or])] at h
          cases h
      · have hne : some row.migrationId ≠ (some v).map fun v => v.item.migrationId :=
          fun hsome => hid (Option.some.inj hsome)
        rw [if_pos hne] at h
        cases h

theorem checkAllApplied_eq_ok (hids : DistinctIds validated) :
    ∀ {rows : List LedgerRow} {index : Nat}, checkAllApplied validated index rows = .ok () →
      rows.map LedgerRow.identity <+: (validated.drop index).map Validated.identity
  | [], _, _ => List.nil_prefix
  | row :: rows, index, h => by
      unfold checkAllApplied at h
      cases hrow : checkApplied validated index row with
      | error e =>
        rw [hrow] at h
        cases h
      | ok u =>
        rw [hrow] at h
        have hidentity := checkApplied_eq_ok hids hrow
        obtain ⟨v, hv, hvrow⟩ := Option.map_eq_some_iff.1 hidentity
        have hrest := checkAllApplied_eq_ok hids h
        rw [List.drop_eq_getElem?_toList_append, hv]
        show row.identity :: _ <+: v.identity :: _
        rw [hvrow]
        exact List.cons_prefix_cons.2 ⟨rfl, hrest⟩

theorem validateAppliedMigrationPrefix_eq_ok (hids : DistinctIds validated) {sqlite : Sqlite δ}
    {d : δ} {applied : List String}
    (h : validateAppliedMigrationPrefix validated (sqlite.ledger d) = .ok applied) :
    ∃ rows, Holds sqlite d rows ∧
      rows.map LedgerRow.identity <+: validated.map Validated.identity ∧
      applied = rows.map LedgerRow.migrationId := by
  cases hledger : sqlite.ledger d with
  | none =>
    rw [hledger] at h
    cases h
    exact ⟨[], .inr ⟨hledger, rfl⟩, List.nil_prefix, rfl⟩
  | some result =>
    rw [hledger] at h
    cases result with
    | error message => cases h
    | ok rows =>
      unfold validateAppliedMigrationPrefix at h
      simp only at h
      cases hcheck : checkAllApplied validated 0 rows with
      | error e =>
        rw [hcheck] at h
        cases h
      | ok u =>
        rw [hcheck] at h
        cases h
        exact ⟨rows, .inl hledger, checkAllApplied_eq_ok hids hcheck, rfl⟩

end Validation

/-! ## Inside the transaction of a call -/

variable {w : Snapshot δ}

theorem query_within {α β : Type} {read : δ → Except InitializeError α} {f : α → Call δ β}
    {Q : β → Snapshot δ → Prop} (h : ∀ a, read w.data = .ok a → (f a).Within Q w) :
    (Client.transaction (query read) >>= f).Within Q w := by
  apply Client.Within.transaction_bind
  intro d a c' hbody
  unfold query at hbody
  cases hread : read w.data with
  | error e =>
    simp only [Connection.content, Option.getD_some, hread] at hbody
    cases hbody
  | ok b =>
    simp only [Connection.content, Option.getD_some, hread] at hbody
    cases hbody
    exact ⟨w, rfl, h a hread⟩

theorem execute_within {β : Type} {kind : StatementKind}
    {effect : Snapshot δ → Except String (Snapshot δ)} {f : Unit → Call δ β}
    {Q : β → Snapshot δ → Prop} (hkind : kind = .dml ∨ kind = .other)
    (h : ∀ w', effect w = .ok w' → (f ()).Within Q w') :
    (Client.transaction (execute kind effect) >>= f).Within Q w := by
  apply Client.Within.transaction_bind
  intro d a c' hbody
  unfold execute at hbody
  have hbody' : (match effect w with
      | .error message => .error (.sqlite message)
      | .ok w' => .ok ((), ⟨d, some w'⟩)) = (.ok (a, c') : Except InitializeError _) := by
    rcases hkind with rfl | rfl <;> exact hbody
  cases heffect : effect w with
  | error message =>
    rw [heffect] at hbody'
    cases hbody'
  | ok w' =>
    rw [heffect] at hbody'
    cases hbody'
    exact ⟨w', rfl, h w' heffect⟩

/-- The ghost entries of the statements of one migration. -/
def ranOf (migrationId : String) (index count : Nat) : List (String × Nat) :=
  (List.range' index count).map fun i => (migrationId, i)

theorem nodup_ranOf (migrationId : String) (index count : Nat) :
    (ranOf migrationId index count).Nodup := by
  apply List.Nodup.map
  · exact fun _ _ h => (Prod.mk.inj h).2
  · exact List.nodup_range'

theorem fst_of_mem_ranOf {migrationId : String} {index count : Nat} {e : String × Nat}
    (h : e ∈ ranOf migrationId index count) : e.1 = migrationId := by
  obtain ⟨i, -, rfl⟩ := List.mem_map.1 h
  rfl

variable {validated : List Validated}

section Transaction

variable {sqlite : Sqlite δ} {rows : List LedgerRow}

/-- Plain statements leave the ledger as it was. -/
theorem executeStatements_within (migrationId : String) :
    ∀ (texts : List (List Char)) (index : Nat) (w : Snapshot δ),
      (∀ text ∈ texts, PlainStatement sqlite text) → Holds sqlite w.data rows →
      (executeStatements sqlite migrationId index texts).Within
        (fun _ w' => Holds sqlite w'.data rows ∧
          w'.ran = w.ran ++ ranOf migrationId index texts.length) w
  | [], _, w, _, hrows => ⟨hrows, (List.append_nil w.ran).symm⟩
  | text :: texts, index, w, hplain, hrows => by
      have htext := hplain text List.mem_cons_self
      apply execute_within htext.kind
      intro w₁ heffect
      unfold statementEffect at heffect
      cases hrun : sqlite.run text w.data with
      | error message =>
        rw [hrun] at heffect
        cases heffect
      | ok data =>
        rw [hrun] at heffect
        cases heffect
        have hrows₁ : Holds sqlite data rows := by
          rcases htext.ledger w.data data hrun with hsame | ⟨hnone, hcreated⟩
          · unfold Holds
            rw [hsame]
            exact hrows
          · rcases hrows with hsome | ⟨-, rfl⟩
            · rw [hnone] at hsome
              cases hsome
            · exact .inl hcreated
        have hrest := executeStatements_within migrationId texts (index + 1)
          ⟨data, w.ran ++ [(migrationId, index)]⟩
          (fun text' h => hplain text' (List.mem_cons_of_mem _ h)) hrows₁
        refine hrest.mono fun _ w' h => ⟨h.1, ?_⟩
        rw [h.2, List.append_assoc]
        rfl

/-- The row a migration gets in the ledger. -/
def ledgerRow (appliedAt : String) (v : Validated) : LedgerRow :=
  ⟨v.item.migrationId, v.actual, v.item.previousMigrationDigest, appliedAt⟩

theorem insert_within (hinsert : InsertAppends sqlite) {row : LedgerRow}
    (hrows : sqlite.ledger w.data = some (.ok rows)) :
    (Client.transaction (execute .dml (insertEffect sqlite row))).Within
      (fun _ w' => Holds sqlite w'.data (rows ++ [row]) ∧ w'.ran = w.ran) w := by
  apply execute_within (f := Client.ret) (.inl rfl)
  intro w' heffect
  unfold insertEffect at heffect
  cases hrun : sqlite.insertLedger row w.data with
  | error message =>
    rw [hrun] at heffect
    cases heffect
  | ok data =>
    rw [hrun] at heffect
    cases heffect
    exact ⟨.inl (hinsert row w.data data rows hrows hrun), rfl⟩

theorem record_within (hinsert : InsertAppends sqlite) {migrationId : String} {row : LedgerRow}
    (hrows : Holds sqlite w.data rows) :
    (Client.transaction (query (tableExists sqlite migrationId)) >>= fun _ =>
      Client.transaction (execute .dml (insertEffect sqlite row))).Within
      (fun _ w' => Holds sqlite w'.data (rows ++ [row]) ∧ w'.ran = w.ran) w := by
  apply query_within
  intro u htable
  refine insert_within hinsert ?_
  rcases hrows with hsome | ⟨hnone, -⟩
  · exact hsome
  · unfold tableExists at htable
    rw [hnone] at htable
    cases htable

theorem applyMigration_within (hinsert : InsertAppends sqlite) (appliedAt : String)
    {v : Validated} (hplain : PlainMigrations sqlite [v]) (hrows : Holds sqlite w.data rows) :
    (applyMigration sqlite appliedAt v).Within
      (fun _ w' => Holds sqlite w'.data (rows ++ [ledgerRow appliedAt v]) ∧
        ∃ count, w'.ran = w.ran ++ ranOf v.item.migrationId 0 count) w := by
  unfold applyMigration
  apply query_within
  intro satisfied _
  cases satisfied with
  | true =>
    -- the effect of 0002 is there already: only the ledger changes
    refine (record_within hinsert hrows).mono fun _ w' h => ⟨h.1, 0, ?_⟩
    rw [h.2]
    exact (List.append_nil w.ran).symm
  | false =>
    apply Client.Within.ofExcept_bind
    intro statements hstatements
    have htexts := hplain v List.mem_cons_self statements hstatements
    apply (executeStatements_within v.item.migrationId statements 0 w htexts hrows).bind
    intro _ w₁ h₁
    refine (record_within hinsert h₁.1).mono fun _ w' h => ⟨h.1, statements.length, ?_⟩
    rw [h.2, h₁.2]

theorem applyMigrations_skip (appliedAt : String) {applied : List String}
    (pending : List Validated) :
    ∀ {done : List Validated}, (∀ v ∈ done, v.item.migrationId ∈ applied) →
      applyMigrations sqlite appliedAt applied (done ++ pending) =
        applyMigrations sqlite appliedAt applied pending
  | [], _ => rfl
  | v :: done, h => by
      rw [List.cons_append, applyMigrations, if_pos (h v List.mem_cons_self)]
      exact applyMigrations_skip appliedAt pending fun u hu => h u (List.mem_cons_of_mem _ hu)

/-- What applying the migrations `pending` does to a content with the rows `rows`. -/
structure Applied (sqlite : Sqlite δ) (rows : List LedgerRow) (pending : List Validated)
    (w w' : Snapshot δ) : Prop where
  rows : ∃ rows', Holds sqlite w'.data rows' ∧
    rows'.map LedgerRow.identity = rows.map LedgerRow.identity ++ pending.map Validated.identity
  ran : ∃ ran, w'.ran = w.ran ++ ran ∧ ran.Nodup ∧
    ∀ e ∈ ran, e.1 ∈ pending.map fun v => v.item.migrationId
  nothing : pending = [] → w' = w

/-- **The loop.** Migrations with distinct ids, none of them applied, are applied one by one. -/
theorem applyMigrations_within (hinsert : InsertAppends sqlite) (appliedAt : String) :
    ∀ {pending : List Validated} {applied : List String} {rows : List LedgerRow} {w : Snapshot δ},
      DistinctIds pending → PlainMigrations sqlite pending →
      (∀ v ∈ pending, v.item.migrationId ∉ applied) → Holds sqlite w.data rows →
      (applyMigrations sqlite appliedAt applied pending).Within
        (fun _ w' => Applied sqlite rows pending w w') w
  | [], _, rows, w, _, _, _, hrows =>
    ⟨⟨rows, hrows, (List.append_nil _).symm⟩,
      ⟨[], (List.append_nil w.ran).symm, List.nodup_nil, fun _ h => nomatch h⟩, fun _ => rfl⟩
  | v :: rest, applied, rows, w, hids, hplain, hfresh, hrows => by
      obtain ⟨hv, hrest⟩ := List.nodup_cons.1 hids
      rw [applyMigrations, if_neg (hfresh v List.mem_cons_self)]
      have hplainv : PlainMigrations sqlite [v] := fun u hu =>
        hplain u (by rw [List.mem_singleton.1 hu]; exact List.mem_cons_self)
      apply (applyMigration_within hinsert appliedAt hplainv hrows).bind
      intro _ w₁ h₁
      obtain ⟨hrows₁, count, hran₁⟩ := h₁
      have hfresh₁ : ∀ u ∈ rest, u.item.migrationId ∉ applied ++ [v.item.migrationId] := by
        intro u hu hmem
        rcases List.mem_append.1 hmem with hmem | hmem
        · exact hfresh u (List.mem_cons_of_mem _ hu) hmem
        · exact hv (List.mem_map.2 ⟨u, hu, List.mem_singleton.1 hmem⟩)
      have hloop := applyMigrations_within hinsert appliedAt hrest
        (fun u hu => hplain u (List.mem_cons_of_mem _ hu)) hfresh₁ hrows₁
      refine hloop.mono fun _ w' h => ⟨?_, ?_, fun hnil => nomatch hnil⟩
      · obtain ⟨rows', hrows', hidentity⟩ := h.rows
        refine ⟨rows', hrows', ?_⟩
        rw [hidentity, List.map_append, List.append_assoc]
        rfl
      · obtain ⟨ran, hran, hnodup, hmem⟩ := h.ran
        refine ⟨ranOf v.item.migrationId 0 count ++ ran, ?_, ?_, ?_⟩
        · rw [hran, hran₁, List.append_assoc]
        · refine List.nodup_append.2 ⟨nodup_ranOf _ _ _, hnodup, fun e he e' he' heq => ?_⟩
          -- `v` is not among the rest, so the statements are of different migrations
          apply hv
          show v.item.migrationId ∈ _
          rw [← fst_of_mem_ranOf he, heq]
          exact hmem e' he'
        · intro e he
          rcases List.mem_append.1 he with he | he
          · rw [fst_of_mem_ranOf he]
            exact List.mem_cons_self
          · exact List.mem_cons_of_mem _ (hmem e he)

/-- What a call may commit over a committed content. -/
structure Migrated (sqlite : Sqlite δ) (validated : List Validated) (w w' : Snapshot δ) : Prop where
  before : LedgerPrefix sqlite validated w.data
  after : LedgerWhole sqlite validated w'.data
  nothing : LedgerWhole sqlite validated w.data → w' = w
  ran : ∃ ran, w'.ran = w.ran ++ ran ∧ ran.Nodup ∧
    ∀ rows, Holds sqlite w.data rows → ∀ e ∈ ran, e.1 ∉ rows.map LedgerRow.migrationId

theorem ids_of_prefix (h : rows.map LedgerRow.identity <+: validated.map Validated.identity) :
    rows.map LedgerRow.migrationId =
      (validated.take rows.length).map fun v => v.item.migrationId := by
  have htake := List.prefix_iff_eq_take.1 h
  rw [List.length_map, ← List.map_take] at htake
  have hfst := congrArg (List.map Prod.fst) htake
  rw [List.map_map, List.map_map] at hfst
  exact hfst

/-- What one run of the migrations brings about. -/
theorem migrate_within (hinsert : InsertAppends sqlite)
    (hids : DistinctIds validated) (hplain : PlainMigrations sqlite validated) (appliedAt : String)
    (w : Snapshot δ) :
    (migrate sqlite validated appliedAt).Within (fun _ w' => Migrated sqlite validated w w') w := by
  unfold migrate
  apply query_within
  intro applied happlied
  obtain ⟨rows, hrows, hprefix, rfl⟩ := validateAppliedMigrationPrefix_eq_ok hids happlied
  have hrowIds := ids_of_prefix hprefix
  have hsplit := List.take_append_drop rows.length validated
  generalize hdone : validated.take rows.length = done at hrowIds hsplit
  generalize hpending : validated.drop rows.length = pending at hsplit
  have hdisjoint : ∀ v ∈ pending, v.item.migrationId ∉ rows.map LedgerRow.migrationId := by
    intro v hv hmem
    rw [hrowIds] at hmem
    unfold DistinctIds at hids
    rw [← hsplit, List.map_append] at hids
    exact (List.nodup_append.1 hids).2.2 _ hmem _ (List.mem_map.2 ⟨v, hv, rfl⟩) rfl
  have hpendingIds : DistinctIds pending := by
    unfold DistinctIds at hids ⊢
    rw [← hsplit, List.map_append] at hids
    exact (List.nodup_append.1 hids).2.1
  have hskip : applyMigrations sqlite appliedAt (rows.map LedgerRow.migrationId) validated =
      applyMigrations sqlite appliedAt (rows.map LedgerRow.migrationId) pending := by
    rw [← hsplit]
    apply applyMigrations_skip
    intro v hv
    rw [hrowIds]
    exact List.mem_map.2 ⟨v, hv, rfl⟩
  rw [hskip]
  apply (applyMigrations_within hinsert appliedAt hpendingIds
    (fun v hv => hplain v (by rw [← hsplit]; exact List.mem_append_right _ hv))
    hdisjoint hrows).bind
  intro _ w' happly
  apply query_within (f := Client.ret)
  intro _ _
  have hwhole : validated.map Validated.identity =
      rows.map LedgerRow.identity ++ pending.map Validated.identity := by
    have htake := List.prefix_iff_eq_take.1 hprefix
    rw [List.length_map, ← List.map_take, hdone] at htake
    rw [htake, ← List.map_append, hsplit]
  refine ⟨⟨rows, hrows, hprefix⟩, ?_, ?_, ?_⟩
  · obtain ⟨rows', hrows', hidentity⟩ := happly.rows
    exact ⟨rows', hrows', by rw [hidentity, hwhole]⟩
  · rintro ⟨rows', hrows', hidentity⟩
    rw [hrows'.unique hrows, hwhole] at hidentity
    exact happly.nothing (List.map_eq_nil_iff.1 (List.self_eq_append_right.1 hidentity))
  · obtain ⟨ran, hran, hnodup, hmem⟩ := happly.ran
    refine ⟨ran, hran, hnodup, fun rows' hrows' e he => ?_⟩
    rw [hrows'.unique hrows]
    obtain ⟨v, hv, hve⟩ := List.mem_map.1 (hmem e he)
    rw [← hve]
    exact hdisjoint v hv

end Transaction

/-! ## Any number of initialisers -/

/-- The calls of a system are calls of `initialize` with one manifest. -/
def IsInitialize (sqlite : Sqlite δ) (files : String → Option MigrationFile)
    (manifest : List ManifestItem) (c : Call δ Unit) : Prop :=
  ∃ appliedAt, c = initializeStore sqlite files manifest appliedAt

/-- Steps of any number of calls, each of which may fail at any statement. -/
abbrev InitializeStep (sqlite : Sqlite δ) (files : String → Option MigrationFile)
    (manifest : List ManifestItem) := WriterStep (IsInitialize sqlite files manifest)

/-- What the runner promises of a system reached from the database `d`. -/
structure MigrationSafety (sqlite : Sqlite δ) (files : String → Option MigrationFile)
    (manifest : List ManifestItem) (validated : List Validated) (d : δ)
    (sys : Snapshot δ × List (Writer (Snapshot δ) InitializeError Unit)) : Prop where
  /-- The ledger stays a prefix of the manifest. -/
  ledger : LedgerPrefix sqlite validated d → LedgerPrefix sqlite validated sys.1.data
  /-- Only the COMMIT of a call changes the database: a call that raises before it changes
  nothing. -/
  atomic : ∀ sys', InitializeStep sqlite files manifest sys sys' →
    sys'.1 = sys.1 ∨ Commits (Migrated sqlite validated) (ensureWalMode sqlite) sys sys'
  /-- A call that has returned has left the whole manifest. -/
  complete : ∀ working, ⟨.ret (), working⟩ ∈ sys.2 → LedgerWhole sqlite validated sys.1.data
  /-- No statement is executed twice, and none of a migration that was in the ledger before. -/
  once : sys.1.ran.Nodup ∧ ∀ rows, Holds sqlite d rows →
    ∀ e ∈ sys.1.ran, e.1 ∉ rows.map LedgerRow.migrationId
  /-- With the whole manifest in the ledger nothing changes any more. -/
  stable : LedgerWhole sqlite validated sys.1.data → ∀ sys',
    Relation.ReflTransGen (InitializeStep sqlite files manifest) sys sys' → sys'.1 = sys.1
  /-- A ledger that is no prefix is left as it is, and no call returns. -/
  rejects : ¬ LedgerPrefix sqlite validated d →
    sys.1.data = d ∧ ∀ working, ⟨.ret (), working⟩ ∉ sys.2

theorem LedgerWhole.prefix_ {sqlite : Sqlite δ} {d : δ}
    (h : LedgerWhole sqlite validated d) : LedgerPrefix sqlite validated d := by
  obtain ⟨rows, hrows, hidentity⟩ := h
  exact ⟨rows, hrows, hidentity ▸ List.prefix_rfl⟩

section Initialisers

variable {sqlite : Sqlite δ} {files : String → Option MigrationFile} {manifest : List ManifestItem}
  {validated : List Validated}

theorem migrated_run {w w' : Snapshot δ}
    (h : Relation.ReflTransGen (Migrated sqlite validated) w w') :
    w' = w ∨ Migrated sqlite validated w w' := by
  induction h with
  | refl => exact .inl rfl
  | tail _ hstep ih =>
    rcases ih with rfl | hfirst
    · exact .inr hstep
    · rw [hstep.nothing hfirst.after]
      exact .inr hfirst

theorem ensureWalMode_preserves (I : Connection (Snapshot δ) → Prop) :
    (ensureWalMode sqlite).Preserves I := by
  apply Client.Preserves.transaction
  apply Keeps.of_readOnly
  intro c a c' h
  unfold query at h
  split at h
  · cases h
    rfl
  · cases h

theorem startsWaiting
    (hvalid : validateManifest sqlite.completeStatement files none manifest = .ok validated)
    (hids : DistinctIds validated) (hplain : PlainMigrations sqlite validated)
    (hinsert : InsertAppends sqlite) :
    StartsWaiting (Migrated sqlite validated) (ensureWalMode sqlite)
      (IsInitialize sqlite files manifest) := by
  rintro c ⟨appliedAt, rfl⟩
  refine ⟨Unit, .sqlite "cannot start a transaction within a transaction",
    migrate sqlite validated appliedAt, ?_, migrate_within hinsert hids hplain appliedAt⟩
  unfold initializeStore
  rw [hvalid]
  rfl

/-- Any number of calls of `initialize`, interleaved in any way and failing anywhere. -/
theorem initialize_migrationSafety
    (hvalid : validateManifest sqlite.completeStatement files none manifest = .ok validated)
    (hids : DistinctIds validated) (hplain : PlainMigrations sqlite validated)
    (hinsert : InsertAppends sqlite) (d : δ)
    {sys : Snapshot δ × List (Writer (Snapshot δ) InitializeError Unit)}
    (hreach : Relation.ReflTransGen (InitializeStep sqlite files manifest) (⟨d, []⟩, []) sys) :
    MigrationSafety sqlite files manifest validated d sys := by
  have hstart := startsWaiting hvalid hids hplain hinsert
  have hdone : ∀ w w', Migrated sqlite validated w w' → LedgerWhole sqlite validated w'.data :=
    fun _ _ h => h.after
  have hnil : Serial (Migrated sqlite validated) (fun w => LedgerWhole sqlite validated w.data)
      (ensureWalMode sqlite) (⟨d, []⟩, []) := Serial.nil _
  obtain ⟨hserial, hpath⟩ :=
    writers_reachable hstart ensureWalMode_preserves hdone hnil hreach
  have hmoved := migrated_run hpath
  refine ⟨?_, ?_, ?_, ?_, ?_, ?_⟩
  · intro hprefix
    rcases hmoved with hsame | hmigrated
    · rw [hsame]
      exact hprefix
    · exact hmigrated.after.prefix_
  · intro sys' hstep
    exact (writers_step hstart ensureWalMode_preserves hdone hserial hstep).2
  · intro working hmem
    exact hserial.done_of_returned hmem
  · rcases hmoved with hsame | hmigrated
    · rw [hsame]
      exact ⟨List.nodup_nil, fun _ _ _ h => nomatch h⟩
    · obtain ⟨ran, hran, hnodup, hfresh⟩ := hmigrated.ran
      rw [hran]
      exact ⟨hnodup, hfresh⟩
  · intro hwhole sys' hlater
    obtain ⟨-, hpath'⟩ := writers_reachable hstart ensureWalMode_preserves hdone hserial hlater
    rcases migrated_run hpath' with hsame | hmigrated
    · exact hsame
    · exact hmigrated.nothing hwhole
  · intro hnot
    have hsame : sys.1 = ⟨d, []⟩ := hmoved.resolve_right fun hmigrated => hnot hmigrated.before
    refine ⟨by rw [hsame], fun working hmem => hnot ?_⟩
    have hwhole := hserial.done_of_returned hmem
    rw [hsame] at hwhole
    exact hwhole.prefix_

end Initialisers

-- A comment in front of it hides transaction control from the check.
example : migrationStatements (fun _ => true) "/* done */ COMMIT;".toList "0001" =
    .ok ["/* done */ COMMIT;".toList] := by
  decide

/-! ## A small database

It has `governance_artifacts` and an empty ledger; two migrations create a table each.
-/

structure SmallDatabase where
  ledger : List LedgerRow
  tables : List String
deriving DecidableEq

def createText (table : String) : List Char := ("CREATE TABLE " ++ table ++ " (x);").toList

/-- SQLite on the statements of the files below. -/
def smallSqlite : Sqlite SmallDatabase where
  completeStatement text := text.getLast? = some ';'
  kind _ := .other
  run text d :=
    match ["a", "b"].find? fun table => text = createText table with
    | none => .error "syntax error"
    | some table =>
      if table ∈ d.tables then .error ("table " ++ table ++ " already exists")
      else .ok { d with tables := d.tables ++ [table] }
  ledger d := some (.ok d.ledger)
  insertLedger row d :=
    if row.migrationId ∈ d.ledger.map LedgerRow.migrationId then
      .error "UNIQUE constraint failed: governance_schema_migrations.migration_id"
    else .ok { d with ledger := d.ledger ++ [row] }
  artifactColumns _ := requiredColumns
  journalMode _ := .ok "wal"

def smallFile (table : String) : MigrationFile := ⟨utf8 (createText table), createText table⟩

def smallFiles (filename : String) : Option MigrationFile :=
  if filename = "a.sql" then some (smallFile "a")
  else if filename = "b.sql" then some (smallFile "b")
  else none

def smallDigest (table : String) : String := sha256Digest (utf8 (createText table))

/-- A manifest whose second migration has the id `secondId`. -/
def smallManifest (secondId : String) : List ManifestItem :=
  [⟨"0001", "a.sql", smallDigest "a", none⟩,
    ⟨secondId, "b.sql", smallDigest "b", some (smallDigest "a")⟩]

def smallValidated (secondId : String) : List Validated :=
  [⟨⟨"0001", "a.sql", smallDigest "a", none⟩, smallFile "a", smallDigest "a"⟩,
    ⟨⟨secondId, "b.sql", smallDigest "b", some (smallDigest "a")⟩, smallFile "b", smallDigest "b"⟩]

theorem smallSqlite_plain (text : List Char) : PlainStatement smallSqlite text := by
  refine ⟨.inr rfl, fun d d' h => .inl ?_⟩
  unfold smallSqlite at h
  simp only at h
  split at h
  · cases h
  · split at h
    · cases h
    · cases h
      rfl

theorem smallSqlite_insertAppends : InsertAppends smallSqlite := by
  intro row d d' rows hrows hinsert
  unfold smallSqlite at hrows hinsert
  simp only at hrows hinsert
  cases hrows
  split at hinsert
  · cases hinsert
  · cases hinsert
    rfl

theorem smallManifest_valid :
    validateManifest smallSqlite.completeStatement smallFiles none (smallManifest "0001") =
        .ok (smallValidated "0001") ∧
      validateManifest smallSqlite.completeStatement smallFiles none (smallManifest "0002") =
        .ok (smallValidated "0002") := by
  decide +kernel

/-- One call on the small database. -/
def smallRun (secondId : String) :
    Except InitializeError Unit × Connection (Snapshot SmallDatabase) :=
  (inTransaction (.sqlite "cannot start a transaction within a transaction")
    (migrate smallSqlite (smallValidated secondId) "2026-07-29T15:00:00Z")
    (ensureWalMode smallSqlite)).run ⟨⟨⟨[], []⟩, []⟩, none⟩

theorem smallRun_reachable {secondId : String}
    (hvalid : validateManifest smallSqlite.completeStatement smallFiles none
      (smallManifest secondId) = .ok (smallValidated secondId))
    (hok : (smallRun secondId).1 = .ok ()) :
    Relation.ReflTransGen (InitializeStep smallSqlite smallFiles (smallManifest secondId))
      (⟨⟨[], []⟩, []⟩, [])
      ((smallRun secondId).2.committed, [⟨.ret (), (smallRun secondId).2.working⟩]) := by
  have hcall : IsInitialize smallSqlite smallFiles (smallManifest secondId)
      (inTransaction (.sqlite "cannot start a transaction within a transaction")
        (migrate smallSqlite (smallValidated secondId) "2026-07-29T15:00:00Z")
        (ensureWalMode smallSqlite)) := by
    refine ⟨"2026-07-29T15:00:00Z", ?_⟩
    unfold initializeStore
    rw [hvalid]
    rfl
  exact .head (.start hcall) (writers_of_run _ _ (Prod.ext hok rfl))

/-- The call with two migrations of different ids. -/
theorem initialize_migrationSafety_two :
    MigrationSafety smallSqlite smallFiles (smallManifest "0002") (smallValidated "0002") ⟨[], []⟩
      ((smallRun "0002").2.committed, [⟨.ret (), (smallRun "0002").2.working⟩]) :=
  initialize_migrationSafety smallManifest_valid.2 (by decide)
    (fun _ _ _ _ text _ => smallSqlite_plain text) smallSqlite_insertAppends ⟨[], []⟩
    (smallRun_reachable smallManifest_valid.2 (by decide +kernel))

/-- Two migrations with one id pass the validation. The second is taken for applied: the call
returns and the ledger is not the manifest. -/
theorem initialize_skips_second :
    validateManifest smallSqlite.completeStatement smallFiles none (smallManifest "0001") =
        .ok (smallValidated "0001") ∧
      ∃ sys, Relation.ReflTransGen (InitializeStep smallSqlite smallFiles (smallManifest "0001"))
          (⟨⟨[], []⟩, []⟩, []) sys ∧
        ¬ MigrationSafety smallSqlite smallFiles (smallManifest "0001") (smallValidated "0001")
          ⟨[], []⟩ sys := by
  have hrun : (smallRun "0001").1 = .ok () ∧
    (smallRun "0001").2.committed.data.ledger.length = 1 := by
    decide +kernel
  refine ⟨smallManifest_valid.1, _, smallRun_reachable smallManifest_valid.1 hrun.1,
    fun hsafe => ?_⟩
  obtain ⟨rows, hrows, hidentity⟩ := hsafe.complete _ List.mem_cons_self
  have hlength := congrArg List.length hidentity
  rw [List.length_map, List.length_map] at hlength
  rcases hrows with hrows | ⟨hnone, -⟩
  · cases hrows
    rw [hrun.2] at hlength
    cases hlength
  · cases hnone

end AtlasDb.Governance.Migrations
