import AtlasDb.Core.Text
import AtlasDb.Lib.Search
import Mathlib.Data.Finset.Basic

/-!
# Lineage of views

`catalog/lineage.py`. `sourceRefs` finds the relations a view definition reads by looking at the
token after each FROM and JOIN; `resolve` follows them from relation to relation. Texts, tokens and
references are lists of characters. Of the report the base relations and the unresolved boundaries
are kept.
-/

namespace AtlasDb.Catalog

open Core Lib

abbrev Chars : Type := List Char

/-! ## Tokens -/

/-- `ch.isalnum() or ch in "_$#.@"`, where `isalnum` is that of ASCII. -/
def isIdentifierChar (c : Char) : Bool :=
  c.isAlphanum || c = '_' || c = '$' || c = '#' || c = '.' || c = '@'

/-- What follows a string literal, from behind its opening quote on. -/
def skipLiteral : Chars → Chars
  | [] => []
  | '\'' :: '\'' :: cs => skipLiteral cs
  | '\'' :: cs => cs
  | _ :: cs => skipLiteral cs

/-- The rest of a quoted identifier with its closing quote, and what follows it. -/
def readQuoted : Chars → Chars × Chars
  | [] => ([], [])
  | '"' :: '"' :: cs => let (name, rest) := readQuoted cs; ('"' :: '"' :: name, rest)
  | '"' :: cs => (['"'], cs)
  | c :: cs => let (name, rest) := readQuoted cs; (c :: name, rest)

/-- What follows a line comment. -/
def skipLine (text : Chars) : Chars := text.dropWhile fun c => c ≠ '\r' && c ≠ '\n'

/-- What follows a block comment, from behind its opening on. -/
def skipBlock : Chars → Chars
  | [] => []
  | '*' :: '/' :: cs => cs
  | _ :: cs => skipBlock cs

/-- `if current: tokens.append("".join(current))` -/
def flush (current : Chars) : List Chars := if current = [] then [] else [current]

def isMark (c : Char) : Bool := c = '(' || c = ')' || c = ','

/-- The loop of `_tokenize`; every turn consumes a character. -/
def tokenizeLoop : Nat → Chars → Chars → List Chars
  | 0, current, _ => flush current
  | _ + 1, current, [] => flush current
  | fuel + 1, current, '\'' :: cs => flush current ++ tokenizeLoop fuel [] (skipLiteral cs)
  | fuel + 1, current, '"' :: cs =>
    flush current ++ ('"' :: (readQuoted cs).1) :: tokenizeLoop fuel [] (readQuoted cs).2
  | fuel + 1, current, '-' :: '-' :: cs => flush current ++ tokenizeLoop fuel [] (skipLine cs)
  | fuel + 1, current, '/' :: '*' :: cs => flush current ++ tokenizeLoop fuel [] (skipBlock cs)
  | fuel + 1, current, c :: cs =>
    if isIdentifierChar c then tokenizeLoop fuel (current ++ [c]) cs
    else flush current ++ ((if isMark c then [[c]] else []) ++ tokenizeLoop fuel [] cs)

/-- `_tokenize`. -/
def tokenize (sql : Chars) : List Chars := tokenizeLoop sql.length [] sql

/-! ## Identifiers -/

/-- `value.split(".")` -/
def splitDots : Chars → List Chars
  | [] => [[]]
  | c :: cs =>
    if c = '.' then [] :: splitDots cs
    else
      match splitDots cs with
      | part :: parts => (c :: part) :: parts
      | [] => [[c]]

/-- `_clean_identifier`. -/
def cleanIdentifier (value : Chars) : Chars :=
  List.intercalate ['.'] (((splitDots value).map fun part =>
    Text.upper (Text.stripBy (· = '"') (Text.strip part))).filter (· ≠ []))

/-- `value.split(".")[-1]` -/
def lastPart (value : Chars) : Chars := (splitDots value).getLastD []

/-! ## Source references -/

def keywords : List Chars := ["FROM", "JOIN", "UPDATE", "INTO"].map String.toList

def marks : List Chars := [['('], [')'], [',']]

/-- The names taken for common table expressions: what stands before AS and behind WITH, or two
tokens behind a comma. -/
def cteNames (previous : Option Chars) : List Chars → List Chars
  | token :: next :: after :: rest =>
    (if (Text.upper token = "WITH".toList ∨ previous = some [',']) ∧ next ∉ marks ∧
        Text.upper after = "AS".toList then [lastPart (cleanIdentifier next)]
      else []) ++
    cteNames (some token) (next :: after :: rest)
  | _ => []

/-- The token looked at behind a keyword: commas are skipped, a parenthesis is not looked into. -/
def headAfter : List Chars → Option Chars
  | [] => none
  | token :: rest =>
    if token = ['('] then none else if token = [','] then headAfter rest else some token

/-- The tokens looked at by the second loop of `_source_refs`. -/
def heads : List Chars → List Chars
  | [] => []
  | [token] => if Text.upper token ∈ keywords then (headAfter []).toList else []
  | token :: next :: rest =>
    if Text.upper token ∈ keywords then (headAfter (next :: rest)).toList ++ heads (next :: rest)
    else if (Text.upper token = "MERGE".toList ∧ Text.upper next = "INTO".toList) ∨
        (Text.upper token = "DELETE".toList ∧ Text.upper next = "FROM".toList) then
      (headAfter rest).toList ++ heads rest
    else heads (next :: rest)

/-- What is appended to `refs` for a token. -/
def acceptHead (ctes : List Chars) (defaultSchema : Chars) (token : Chars) : Option Chars :=
  let raw := cleanIdentifier token
  if raw ≠ [] ∧ lastPart raw ∉ ctes ∧
      Text.upper raw ∉ ["SELECT", "TABLE", "VALUES"].map String.toList then
    some (if '.' ∈ raw then raw else Text.upper defaultSchema ++ '.' :: raw)
  else none

/-- `_source_refs`. -/
def sourceRefs (sql defaultSchema : Chars) : List Chars :=
  let tokens := tokenize sql
  ((heads tokens).filterMap (acceptHead (cteNames none tokens) defaultSchema)).eraseDups

/-! ## The resolver -/

inductive RelationKind where
  | table
  | view
  | materializedQueryTable
  | synonym
  | nickname
  | tableFunction
  | temporaryTable
  | unknown
deriving DecidableEq

/-- `CatalogRelation`, with the schema of its definition. -/
structure CatalogRelation where
  relationRef : Chars
  relationKind : RelationKind
  schemaName : Chars
  viewDefinitionText : Option Chars := none
  synonymTargetRef : Option Chars := none
  remoteSourceRef : Option Chars := none
deriving DecidableEq

/-- `CatalogSnapshot`; the references are unique. -/
structure CatalogSnapshot where
  relations : List CatalogRelation
  unique : (relations.map fun r => Text.upper r.relationRef).Nodup

/-- `self._relations.get(ref)` -/
def CatalogSnapshot.relation (snapshot : CatalogSnapshot) (ref : Chars) : Option CatalogRelation :=
  snapshot.relations.find? fun r => Text.upper r.relationRef = ref

/-- An entry of `unresolved_boundaries`. -/
inductive Boundary where
  | sourceUnavailable (ref : Chars)
  | viewRecursionDetected (ref : Chars)
  | viewExpansionDepthLimit (ref : Chars)
  | viewDefinitionUnavailable (ref : Chars)
  | remoteMetadataUnavailable (ref : Chars)
  | tableFunctionBodyUnavailable (ref : Chars)
deriving DecidableEq

/-- The text of a boundary. -/
def Boundary.text : Boundary → Chars
  | sourceUnavailable ref => ref
  | viewRecursionDetected ref => "VIEW_RECURSION_DETECTED:".toList ++ ref
  | viewExpansionDepthLimit ref => "VIEW_EXPANSION_DEPTH_LIMIT:".toList ++ ref
  | viewDefinitionUnavailable ref => "VIEW_DEFINITION_UNAVAILABLE:".toList ++ ref
  | remoteMetadataUnavailable ref => "REMOTE_METADATA_UNAVAILABLE:".toList ++ ref
  | tableFunctionBodyUnavailable ref => "TABLE_FUNCTION_BODY_UNAVAILABLE:".toList ++ ref

/-- A reference in the queue, with its depth and the references it was reached through. -/
structure Pending where
  ref : Chars
  depth : Nat
  lineage : List Chars
deriving DecidableEq

structure LineageState where
  base : Finset Chars
  unresolved : Finset Boundary
deriving DecidableEq

/-- `targets` of a relation. -/
def targetsOf (relation : CatalogRelation) : List Chars :=
  match relation.relationKind with
  | .synonym =>
    match relation.synonymTargetRef with
    | some target => if target = [] then [] else [Text.upper target]
    | none => []
  | .view | .materializedQueryTable =>
    match relation.viewDefinitionText with
    | some text => if text = [] then [] else sourceRefs text relation.schemaName
    | none => []
  | _ => []

/-- `not text`, for an optional text. -/
def isMissing (text : Option Chars) : Bool := text.getD [] = []

/-- What a turn of the loop appends to the queue. -/
def nextPending (snapshot : CatalogSnapshot) (maxDepth : Nat) (item : Pending) : List Pending :=
  match snapshot.relation item.ref with
  | none => []
  | some relation =>
    if item.ref ∈ item.lineage ∨ maxDepth ≤ item.depth then []
    else (targetsOf relation).map fun target =>
      ⟨target, item.depth + 1, item.lineage ++ [item.ref]⟩

/-- What a turn of the loop adds to the sets. -/
def record (snapshot : CatalogSnapshot) (maxDepth : Nat) (s : LineageState) (item : Pending) :
    LineageState :=
  let report := fun b => { s with unresolved := insert b s.unresolved }
  match snapshot.relation item.ref with
  | none => report (.sourceUnavailable item.ref)
  | some relation =>
    if item.ref ∈ item.lineage then report (.viewRecursionDetected item.ref)
    else if maxDepth ≤ item.depth then report (.viewExpansionDepthLimit item.ref)
    else
      match relation.relationKind with
      | .view | .materializedQueryTable =>
        if isMissing relation.viewDefinitionText then
          report (.viewDefinitionUnavailable item.ref)
        else s
      | .table | .temporaryTable => { s with base := insert item.ref s.base }
      | .nickname =>
        { base := insert item.ref s.base
          unresolved :=
            if isMissing relation.remoteSourceRef then
              insert (.remoteMetadataUnavailable item.ref) s.unresolved
            else s.unresolved }
      | .tableFunction => report (.tableFunctionBodyUnavailable item.ref)
      | .synonym | .unknown => s

/-- The most targets a relation of the snapshot has. -/
def branching (snapshot : CatalogSnapshot) : Nat :=
  (snapshot.relations.map fun r => (targetsOf r).length).foldr max 0

/-- A bound on the turns a reference of this depth causes. -/
def pendingWeight (snapshot : CatalogSnapshot) (maxDepth depth : Nat) : Nat :=
  (branching snapshot + 2) ^ (maxDepth + 1 - depth)

/-- `tuple(dict.fromkeys(value.strip().upper() for value in ... if value.strip()))` -/
def rootRefs (rootRelationRefs : List Chars) : List Chars :=
  (((rootRelationRefs.map Text.strip).filter (· ≠ [])).map Text.upper).eraseDups

/-- `resolve`. -/
def resolve (snapshot : CatalogSnapshot) (maxDepth : Nat) (rootRelationRefs : List Chars) :
    LineageState :=
  let queue := (rootRefs rootRelationRefs).map fun root => (⟨root, 0, []⟩ : Pending)
  drain (nextPending snapshot maxDepth) (record snapshot maxDepth)
    (queue.length * pendingWeight snapshot maxDepth 0) queue ⟨∅, ∅⟩

end AtlasDb.Catalog
