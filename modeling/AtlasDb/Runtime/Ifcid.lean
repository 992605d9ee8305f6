import AtlasDb.Core.CanonicalJson
import AtlasDb.Core.Instant
import AtlasDb.Lib.Assoc

/-!
# Runtime evidence from IFCID trace extracts

`runtime/adapters/db2_zos_ifcid.py`. The records of a trace extract are folded into one key space:
statements known by identity (package and section) and statements known by their text. A record that
carries both links the two, and what was only known by that text is merged into the identity.

Left out: the identifier and the digest of the observation, the time it was made at, its constant
fields, and the wording of a refusal.
-/

namespace AtlasDb.Runtime.Ifcid

open Core Lib

/-! ## IFCIDs -/

inductive AttributionScope where
  | thread
  | subsystem
deriving DecidableEq

inductive IfcidId where
  | statistics
  | accounting
  | lockDetail
  | sqlStatementEnd
  | sqlStatementText
  | deadlock
  | timeout
  | dynamicCacheStats
  | dynamicCacheText
  | sqlStatementString
  | auditTrail
  | staticStatementStats
deriving DecidableEq

def IfcidId.value : IfcidId → String
  | .statistics => "IFCID_0002"
  | .accounting => "IFCID_0003"
  | .lockDetail => "IFCID_0021"
  | .sqlStatementEnd => "IFCID_0058"
  | .sqlStatementText => "IFCID_0063"
  | .deadlock => "IFCID_0172"
  | .timeout => "IFCID_0196"
  | .dynamicCacheStats => "IFCID_0316"
  | .dynamicCacheText => "IFCID_0317"
  | .sqlStatementString => "IFCID_0350"
  | .auditTrail => "IFCID_0361"
  | .staticStatementStats => "IFCID_0401"

inductive ObservationCapability where
  | statementText
  | statementIdentity
  | statementExecutionCount
  | statementSqlcode
  | threadRollup
  | lockContention
  | tableAccessAudit
  | subsystemWideCachePresent
deriving DecidableEq

structure IfcidProfile where
  capabilities : List ObservationCapability
  attribution : AttributionScope

/-- `IFCID_PROFILES`, which has an entry for every IFCID. -/
def ifcidProfile : IfcidId → IfcidProfile
  | .sqlStatementText | .sqlStatementString => ⟨[.statementText, .statementIdentity], .thread⟩
  | .sqlStatementEnd =>
    ⟨[.statementSqlcode, .statementExecutionCount, .statementIdentity], .thread⟩
  | .staticStatementStats => ⟨[.statementExecutionCount, .statementIdentity], .thread⟩
  | .accounting => ⟨[.threadRollup], .thread⟩
  | .statistics => ⟨[.threadRollup], .subsystem⟩
  | .lockDetail => ⟨[.lockContention], .thread⟩
  | .deadlock | .timeout => ⟨[.lockContention], .subsystem⟩
  | .auditTrail => ⟨[.tableAccessAudit], .thread⟩
  | .dynamicCacheText | .dynamicCacheStats => ⟨[.subsystemWideCachePresent], .subsystem⟩

/-- `THREAD_ONLY_CAPABILITIES`. -/
def threadOnly (c : ObservationCapability) : Bool :=
  match c with
  | .statementText | .statementIdentity | .statementExecutionCount | .statementSqlcode => true
  | _ => false

inductive IfcidRefusalCode where
  | declarationDigestInvalid
  | noEnabledIfcidGrantsAnyCapability
  | correlationKeyUnresolved
  | normalizationAdapterUndeclared
deriving DecidableEq

inductive IfcidGap where
  | platformProbesStructurallyAbsent
  | tableSnapshotImpossibleFromTrace
  | outputParametersNotInTrace
  | traceRecordsPossiblyLost
  | traceWindowPartialCoverage
  | statementTextCapabilityAbsent
  | executionCountCapabilityAbsent
  | sqlcodeCapabilityAbsent
  | threadRollupOnlyNoStatementDetail
  | subsystemWideSourceNotConsumed
  | overlappingCountSources
  | countsDiscardedWithoutStatementKey
  | statementTextResolutionRequired
  | unlinkedIdentityAndTextEntries
  | extractNotChronologicallyOrdered
  | undeclaredIfcidInExtract
deriving DecidableEq

/-! ## Declarations, windows and records -/

structure IfcidCorrelationKey where
  luwid : Option String
  correlationId : Option String
  threadToken : Option String
  planName : Option String
  packageName : Option String
  authid : Option String

structure IfcidTraceDeclaration where
  declarationId : String
  subsystemId : String
  db2Version : String
  enabledIfcids : List IfcidId
  traceStartedAt : String
  traceStoppedAt : String
  destination : String
  recordsPossiblyLost : Bool
  normalizationAdapterRef : String
  attestationRef : String
  contentDigest : String

/-- `model_dump(exclude={"content_digest"})`. -/
def IfcidTraceDeclaration.dump (d : IfcidTraceDeclaration) : PyValue :=
  .record
    [("declaration_id", .str d.declarationId), ("subsystem_id", .str d.subsystemId),
      ("db2_version", .str d.db2Version),
      ("enabled_ifcids", .list (d.enabledIfcids.map fun i => .enum (.str i.value))),
      ("trace_started_at", .str d.traceStartedAt), ("trace_stopped_at", .str d.traceStoppedAt),
      ("destination", .str d.destination), ("records_possibly_lost", .bool d.recordsPossiblyLost),
      ("normalization_adapter_ref", .str d.normalizationAdapterRef),
      ("attestation_ref", .str d.attestationRef)]

/-- Subsystem-wide sources never grant thread-only capabilities. -/
def IfcidTraceDeclaration.capabilities (d : IfcidTraceDeclaration) : List ObservationCapability :=
  d.enabledIfcids.flatMap fun ifcid =>
    if (ifcidProfile ifcid).attribution = .subsystem then
      (ifcidProfile ifcid).capabilities.filter fun c => !threadOnly c
    else (ifcidProfile ifcid).capabilities

structure StatementIdentity where
  collection : Option String
  package : Option String
  packageVersion : Option String
  sectionNumber : Option Int
  statementNumber : Option Int
  stmtId : Option Int
deriving DecidableEq

/-- A string that is there and not empty. -/
def truthy (s : Option String) : Bool := s ≠ none && s ≠ some ""

def StatementIdentity.isEmpty (i : StatementIdentity) : Bool :=
  !(truthy i.collection || truthy i.package || i.sectionNumber.isSome || i.statementNumber.isSome ||
    i.stmtId.isSome)

def StatementIdentity.dump (i : StatementIdentity) : PyValue :=
  let text (s : Option String) : PyValue := (s.map PyValue.str).getD .none
  let number (n : Option Int) : PyValue := (n.map PyValue.int).getD .none
  .record
    [("collection", text i.collection), ("package", text i.package),
      ("package_version", text i.packageVersion), ("section", number i.sectionNumber),
      ("statement_number", number i.statementNumber), ("stmt_id", number i.stmtId)]

inductive SectionKind where
  | dynamic
  | static
  | unknown
deriving DecidableEq

structure NormalizedIfcidRecord where
  ifcid : IfcidId
  recordedAt : String
  statementIdentity : Option StatementIdentity
  statementText : Option String
  statementKind : SectionKind
  executions : Option Int
  sqlstate : Option String

structure IfcidInvocationWindow where
  invocationId : String
  startedAt : String
  endedAt : String
  correlation : IfcidCorrelationKey

structure IfcidRecordSource where
  adapterRef : String
  records : IfcidTraceDeclaration → IfcidCorrelationKey → List NormalizedIfcidRecord

/-! ## Guards -/

/-- `assert_extract_admissible`: the codes of a refusal. -/
def refusalCodes (nfc : Nfc) (declaration : IfcidTraceDeclaration) (window : IfcidInvocationWindow)
    (source : IfcidRecordSource) : List IfcidRefusalCode :=
  (if canonicalDigest nfc declaration.dump = .ok declaration.contentDigest then []
    else [.declarationDigestInvalid]) ++
  (if source.adapterRef = declaration.normalizationAdapterRef then []
    else [.normalizationAdapterUndeclared]) ++
  (if declaration.capabilities = [] then [.noEnabledIfcidGrantsAnyCapability] else []) ++
  (if truthy window.correlation.luwid || truthy window.correlation.correlationId ||
      truthy window.correlation.threadToken then []
    else [.correlationKeyUnresolved])

/-- `_covers`: the timestamps are compared as texts. -/
def covers (declaration : IfcidTraceDeclaration) (window : IfcidInvocationWindow) : Bool :=
  declaration.traceStartedAt ≤ window.startedAt && window.endedAt ≤ declaration.traceStoppedAt

/-! ## Key space -/

/-- The first 24 digits of a digest. The values digested here are of strings and numbers, which
always have one. -/
def shortDigest (nfc : Nfc) (value : PyValue) : String :=
  match canonicalDigest nfc value with
  | .ok digest => String.ofList ((digest.toList.drop "sha256:".length).take 24)
  | .error _ => ""

/-- `_identity_key`. -/
def identityKey (nfc : Nfc) (identity : StatementIdentity) : String :=
  "id:" ++ shortDigest nfc identity.dump

/-- `_text_key`. -/
def textKey (nfc : Nfc) (text : String) : String :=
  "tx:" ++ shortDigest nfc (.record [("text", .str text)])

/-- The accumulator for one statement. -/
structure Entry where
  identity : Option StatementIdentity := none
  text : Option String := none
  kind : SectionKind := .unknown
  counts : List (IfcidId × Int) := []

/-- `counts[ifcid] += value`. -/
def addCount (counts : List (IfcidId × Int)) (ifcid : IfcidId) (value : Int) :
    List (IfcidId × Int) :=
  setEntry counts ifcid ((counts.lookup ifcid).getD 0 + value)

def Entry.merge (e other : Entry) : Entry where
  identity := e.identity <|> other.identity
  text := e.text <|> other.text
  kind := if e.kind = .unknown then other.kind else e.kind
  counts := other.counts.foldl (fun counts c => addCount counts c.1 c.2) e.counts

/-! ## Derivation -/

/-- The identity of a record, if it is one and its IFCID carries identities. -/
def usableIdentity (record : NormalizedIfcidRecord) : Option StatementIdentity :=
  record.statementIdentity.filter fun i =>
    !i.isEmpty && .statementIdentity ∈ (ifcidProfile record.ifcid).capabilities

/-- The text of a record without the blanks around it, if it has one and its IFCID carries texts. -/
def usableText (record : NormalizedIfcidRecord) : Option String :=
  ((record.statementText.filter (· ≠ "")).map fun s => String.ofList (Text.strip s.toList)).filter
    fun s => s ≠ "" && .statementText ∈ (ifcidProfile record.ifcid).capabilities

def hasCount (record : NormalizedIfcidRecord) : Bool :=
  .statementExecutionCount ∈ (ifcidProfile record.ifcid).capabilities && record.executions.isSome

def addGap (gaps : List IfcidGap) (gap : IfcidGap) : List IfcidGap :=
  if gap ∈ gaps then gaps else gaps ++ [gap]

structure DeriveState where
  entries : List (String × Entry) := []
  textToIdentity : List (String × String) := []
  sqlstate : Option String := none
  gaps : List IfcidGap

/-- What a record adds to its entry. -/
def Entry.add (e : Entry) (record : NormalizedIfcidRecord) : Entry where
  identity := e.identity <|> usableIdentity record
  text := e.text <|> usableText record
  kind := if e.kind = .unknown then record.statementKind else e.kind
  counts := if hasCount record then addCount e.counts record.ifcid (record.executions.getD 0)
    else e.counts

/-- The end state a record reports, else the one so far. -/
def nextSqlstate (sqlstate : Option String) (record : NormalizedIfcidRecord) : Option String :=
  if .statementSqlcode ∈ (ifcidProfile record.ifcid).capabilities && truthy record.sqlstate then
    record.sqlstate
  else sqlstate

/-- The key of a record with an identity or a text. -/
def recordKey (nfc : Nfc) (record : NormalizedIfcidRecord) : Option String :=
  match usableIdentity record with
  | some identity => some (identityKey nfc identity)
  | none => (usableText record).map (textKey nfc)

/-- A declared IFCID whose records are tied to one thread. -/
def attributable (declaration : IfcidTraceDeclaration) (record : NormalizedIfcidRecord) : Bool :=
  record.ifcid ∈ declaration.enabledIfcids && (ifcidProfile record.ifcid).attribution = .thread

/-- `text_to_identity` with what the record of a key links. -/
def nextLinks (nfc : Nfc) (links : List (String × String)) (record : NormalizedIfcidRecord)
    (key : String) : List (String × String) :=
  match usableIdentity record, usableText record with
  | some _, some text => setEntry links (textKey nfc text) key
  | _, _ => links

/-- The loop over the records. -/
def consume (nfc : Nfc) (declaration : IfcidTraceDeclaration) (s : DeriveState)
    (record : NormalizedIfcidRecord) : DeriveState :=
  if record.ifcid ∉ declaration.enabledIfcids then
    { s with gaps := addGap s.gaps .undeclaredIfcidInExtract }
  else if (ifcidProfile record.ifcid).attribution = .subsystem then s
  else
    match recordKey nfc record with
    | none =>
      { s with
        sqlstate := nextSqlstate s.sqlstate record
        gaps := if hasCount record then addGap s.gaps .countsDiscardedWithoutStatementKey
          else s.gaps }
    | some key =>
      { s with
        entries := setEntry s.entries key (((s.entries.lookup key).getD {}).add record)
        textToIdentity := nextLinks nfc s.textToIdentity record key
        sqlstate := nextSqlstate s.sqlstate record }

/-- Fold what is known by a text into the identity the text was linked to. -/
def reconcile (entries : List (String × Entry)) (link : String × String) :
    List (String × Entry) :=
  match entries.lookup link.1, entries.lookup link.2 with
  | some byText, some byIdentity =>
    if link.1 ≠ link.2 then
      setEntry (entries.filter fun entry => entry.1 ≠ link.1) link.2 (byIdentity.merge byText)
    else entries
  | _, _ => entries

inductive TextResolution where
  | resolved
  | catalogLookupRequired
  | notAvailable
deriving DecidableEq

inductive CaptureQualifier where
  | exact
  | possibleMetricsUnavailable
  | possibleCacheEvictionUndercount
deriving DecidableEq

structure ObservedStatement where
  statementText : Option String
  statementIdentity : Option StatementIdentity
  textResolution : TextResolution
  executions : Option Int
  sectionKind : SectionKind
  captureQualifier : CaptureQualifier
deriving DecidableEq

/-- The count of a statement and what it is worth. Two sources of counts give none. -/
def countOf (tainted : Bool) : List (IfcidId × Int) → Option Int × CaptureQualifier
  | [(_, count)] =>
    (some count, if tainted then .possibleCacheEvictionUndercount else .exact)
  | _ => (none, .possibleMetricsUnavailable)

def observe (tainted : Bool) (e : Entry) : ObservedStatement where
  statementText := e.text
  statementIdentity := e.identity
  textResolution :=
    if e.text.isSome then .resolved
    else if e.identity.isSome then .catalogLookupRequired else .notAvailable
  executions := (countOf tainted e.counts).1
  sectionKind := e.kind
  captureQualifier := (countOf tainted e.counts).2

/-- The gaps found while the statements are written. -/
def entryGaps (gaps : List IfcidGap) (e : Entry) : List IfcidGap :=
  let gaps := if 1 < e.counts.length then addGap gaps .overlappingCountSources else gaps
  if e.text.isNone && e.identity.isSome then addGap gaps .statementTextResolutionRequired else gaps

/-- The gaps told by the declaration and the window. -/
def declaredGaps (declaration : IfcidTraceDeclaration) (window : IfcidInvocationWindow) :
    List IfcidGap :=
  let caps := declaration.capabilities
  let gap (holds : Bool) (g : IfcidGap) : List IfcidGap := if holds then [g] else []
  [.platformProbesStructurallyAbsent, .tableSnapshotImpossibleFromTrace,
    .outputParametersNotInTrace] ++
  gap declaration.recordsPossiblyLost .traceRecordsPossiblyLost ++
  gap (!covers declaration window) .traceWindowPartialCoverage ++
  gap (.statementText ∉ caps) .statementTextCapabilityAbsent ++
  gap (.statementExecutionCount ∉ caps) .executionCountCapabilityAbsent ++
  gap (.statementSqlcode ∉ caps) .sqlcodeCapabilityAbsent ++
  gap (.subsystemWideCachePresent ∈ caps) .subsystemWideSourceNotConsumed ++
  gap (.statementText ∉ caps && .threadRollup ∈ caps) .threadRollupOnlyNoStatementDetail

def recordedLe (a b : NormalizedIfcidRecord) : Prop := a.recordedAt ≤ b.recordedAt

instance : DecidableRel recordedLe :=
  fun a b => inferInstanceAs (Decidable (a.recordedAt ≤ b.recordedAt))

def keyLe (a b : String × Entry) : Prop := a.1 ≤ b.1

instance : DecidableRel keyLe := fun a b => inferInstanceAs (Decidable (a.1 ≤ b.1))

structure IfcidObservation where
  planRef : String
  planDigest : String
  invocationRef : String
  sqlstate : Option String
  dynamicStatements : List ObservedStatement
  captureGaps : List IfcidGap

/-- `derive`, or the codes it is refused with. -/
def derive (nfc : Nfc) (declaration : IfcidTraceDeclaration) (window : IfcidInvocationWindow)
    (source : IfcidRecordSource) (planRef planDigest : String) :
    Except (List IfcidRefusalCode) IfcidObservation :=
  if refusalCodes nfc declaration window source ≠ [] then
    .error (refusalCodes nfc declaration window source)
  else
    let records := source.records declaration window.correlation
    let ordered := records.insertionSort recordedLe
    let gaps := declaredGaps declaration window
    let gaps := if (records.zip records.tail).any fun p => decide (p.2.recordedAt < p.1.recordedAt)
      then addGap gaps .extractNotChronologicallyOrdered else gaps
    let s := ordered.foldl (consume nfc declaration) { gaps := gaps }
    let entries := s.textToIdentity.foldl reconcile s.entries
    let gaps := if (entries.any fun e => "tx:".toList.isPrefixOf e.1.toList) &&
        entries.any fun e => "id:".toList.isPrefixOf e.1.toList
      then addGap s.gaps .unlinkedIdentityAndTextEntries else s.gaps
    let tainted := declaration.recordsPossiblyLost || !covers declaration window
    let written := entries.insertionSort keyLe
    .ok
      { planRef, planDigest, invocationRef := window.invocationId, sqlstate := s.sqlstate,
        dynamicStatements := written.map fun e => observe tainted e.2
        captureGaps := written.foldl (fun gaps e => entryGaps gaps e.2) gaps }

end AtlasDb.Runtime.Ifcid
