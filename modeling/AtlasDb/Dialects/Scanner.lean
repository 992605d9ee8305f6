import AtlasDb.Core.Regex
import Mathlib.Algebra.GroupWithZero.Nat

/-!
# The statement scanner

`atlas/dialects/scanner.py`: `_mask_comments`, `_split_semicolon_pieces` and `_logical_statements`.
The body is split into lines, the lines into pieces, and pieces are gathered in a buffer until a
boundary. Each piece in the buffer remembers the offset it starts at, which the source drops when it
joins them.
-/

namespace AtlasDb.Dialects

open Core

/-! ## Comments -/

/-- What `_mask_comments` is reading. `copy` has so many characters and one more to leave as they
are. -/
inductive MaskMode where
  | plain
  | quote (quote : Char)
  | dollar (tag : List Char)
  | copy (n : Nat) (next : MaskMode)
  | line
  | block
  | blockEnd

/-- `\$[A-Za-z0-9_]*\$` at the beginning. -/
def dollarTag (text : List Char) : Option (List Char) :=
  match text with
  | '$' :: cs =>
    let name := cs.takeWhile fun c => c.isAlphanum || c = '_'
    if (cs.drop name.length).head? = some '$' then some ('$' :: (name ++ ['$'])) else none
  | _ => none

/-- A blank for a character of a comment. -/
def blanked (c : Char) : Char := if c = '\n' then c else ' '

/-- The loop of `_mask_comments`. -/
def maskFrom : MaskMode → List Char → List Char
  | _, [] => []
  | .plain, c :: cs =>
    if c ∈ ['\'', '"', '`'] then c :: maskFrom (.quote c) cs
    else if c = '-' ∧ cs.head? = some '-' then ' ' :: maskFrom .line cs
    else if c = '/' ∧ cs.head? = some '*' then ' ' :: maskFrom .block cs
    else
      match dollarTag (c :: cs) with
      | some tag => c :: maskFrom (.copy (tag.length - 2) (.dollar tag)) cs
      | none => c :: maskFrom .plain cs
  | .quote quote, c :: cs =>
    if c = quote then
      if cs.head? = some quote then c :: maskFrom (.copy 0 (.quote quote)) cs
      else c :: maskFrom .plain cs
    else c :: maskFrom (.quote quote) cs
  | .dollar tag, c :: cs =>
    if tag.isPrefixOf (c :: cs) then c :: maskFrom (.copy (tag.length - 2) .plain) cs
    else c :: maskFrom (.dollar tag) cs
  | .copy 0 next, c :: cs => c :: maskFrom next cs
  | .copy (n + 1) next, c :: cs => c :: maskFrom (.copy n next) cs
  | .line, c :: cs => if c = '\n' then c :: maskFrom .plain cs else ' ' :: maskFrom .line cs
  | .block, c :: cs =>
    -- The last character of a comment that is not closed stays.
    if cs = [] then [c]
    else if c = '*' ∧ cs.head? = some '/' then ' ' :: maskFrom .blockEnd cs
    else blanked c :: maskFrom .block cs
  | .blockEnd, _ :: cs => ' ' :: maskFrom .plain cs

/-- `_mask_comments`. -/
def maskComments (text : List Char) : List Char := maskFrom .plain text

/-! ## Lines -/

/-- `str.splitlines(keepends=True)`. `line` is what was read of the line, backwards. -/
def splitlinesFrom (line : List Char) : List Char → List (List Char)
  | [] => if line = [] then [] else [line.reverse]
  | c :: cs =>
    if Text.isLineBreak c ∧ ¬ (c = '\r' ∧ cs.head? = some '\n') then
      (c :: line).reverse :: splitlinesFrom [] cs
    else splitlinesFrom (c :: line) cs

def splitlines (text : List Char) : List (List Char) := splitlinesFrom [] text

/-- The text is white space. -/
def isBlank (text : List Char) : Bool := text.all Text.isSpace

/-- `(?i)^\s*(?:DELIMITER\s+\S+|GO|/)\s*$` -/
def isDirective (line : List Char) : Bool :=
  match Text.split (Text.upper line) with
  | [word] => word = "GO".toList || word = ['/']
  | [word, _] => word = "DELIMITER".toList
  | _ => false

/-! ## Pieces -/

/-- Where `_split_semicolon_pieces` is in a line. -/
structure PieceState where
  quote : Option Char := none
  doubled : Bool := false
  bracket : Bool := false
  depth : Nat := 0

/-- One character: the state after it, and whether the piece ends with it. -/
def PieceState.step (s : PieceState) (c : Char) (next : Option Char) : PieceState × Bool :=
  if s.doubled then ({ s with doubled := false }, false)
  else
    match s.quote with
    | some quote =>
      if c = quote then
        if next = some quote then ({ s with doubled := true }, false)
        else ({ s with quote := none }, false)
      else (s, false)
    | none =>
      if s.bracket then (if c = ']' then { s with bracket := false } else s, false)
      else if c = '[' then ({ s with bracket := true }, false)
      else if c ∈ ['\'', '"', '`'] then ({ s with quote := some c }, false)
      else if c = '(' then ({ s with depth := s.depth + 1 }, false)
      else if c = ')' then ({ s with depth := s.depth - 1 }, false)
      else (s, c = ';' && s.depth = 0)

/-- `piece` is what was read of the piece, backwards. -/
def piecesFrom (s : PieceState) (piece : List Char) : List Char → List (List Char)
  | [] => if isBlank piece then [] else [piece.reverse]
  | c :: cs =>
    let (s, ends) := s.step c cs.head?
    if ends then
      let rest := piecesFrom s [] cs
      if isBlank (c :: piece) then rest else (c :: piece).reverse :: rest
    else piecesFrom s (c :: piece) cs

/-- `_split_semicolon_pieces`. -/
def splitSemicolonPieces (line : List Char) : List (List Char) := piecesFrom {} [] line

/-! ## Boundaries -/

/-- A keyword with `\b` after it. -/
def keyword (word : String) : Regex := .seq (.lit word) .boundary

def anyOf (rs : List Regex) : Regex := rs.foldr Regex.alt (.char fun _ => false)

/-- Words with white space between them. -/
def spaced (words : List String) : Regex :=
  .all ((words.map fun w => [Regex.lit w]).intersperse [.plus .space]).flatten

def isLabelStart (c : Char) : Bool := c.isAlpha || c = '_' || c = '$' || c = '#'

/-- `_STARTERS` -/
def starters : Regex :=
  .seq .atStart <| anyOf <|
    [.seq (.lit "BEGIN") (.opt (.seq (.plus .space)
        (anyOf (["TRY", "CATCH", "TRAN", "TRANSACTION"].map Regex.lit)))),
      .seq (.lit "END") (.opt (.seq (.plus .space)
        (anyOf (["IF", "LOOP", "CASE", "TRY", "CATCH", "WHILE", "REPEAT"].map Regex.lit))))] ++
    (["IF", "ELSIF", "ELSEIF", "ELSE", "CASE", "WHEN", "EXCEPTION", "WHILE", "LOOP",
      "FOR", "FOREACH",
      "REPEAT", "UNTIL", "DECLARE", "SET", "SELECT", "WITH", "INSERT", "UPDATE", "DELETE", "MERGE",
      "CALL", "EXEC", "EXECUTE", "PREPARE", "OPEN", "FETCH", "CLOSE", "DEALLOCATE",
        "RETURN", "RAISE",
      "SIGNAL", "RESIGNAL", "THROW", "RAISERROR", "GET", "COMMIT", "ROLLBACK", "SAVEPOINT"].map
        keyword) ++
    [.seq (spaced ["START", "TRANSACTION"]) .boundary] ++
    (["PERFORM", "EXIT", "CONTINUE", "LEAVE", "ITERATE"].map keyword) ++
    [.seq (.lit "CREATE") (.seq (.plus .space) (.seq (anyOf
        [.lit "TEMP", .lit "TEMPORARY", spaced ["GLOBAL", "TEMPORARY"]]) .boundary)),
      .seq (spaced ["ALTER", "SESSION"]) .boundary, .seq (spaced ["EXECUTE", "AS"]) .boundary] ++
    (["REVERT", "PRAGMA", "ASSERT", "FORALL", "GOTO", "LOCK", "TRUNCATE", "PRINT", "DBMS_OUTPUT",
      "DO"].map keyword) ++
    [.seq (spaced ["SET", "TRANSACTION"]) .boundary, .seq (spaced ["SET", "XACT_ABORT"]) .boundary,
      .seq (spaced ["SET", "TRANSACTION", "ISOLATION"]) .boundary,
      .all [.lit "<<", .plus (.char (· ≠ '>')), .lit ">>"],
      .all [.char isLabelStart, .star (.char fun c => isLabelStart c || c.isDigit), .lit ":",
        .star .space, .atEnd]]

/-- `(?is)^(?:ELSE|ELSIF|ELSEIF|WHEN|EXCEPTION|END\b|BEGIN\s+CATCH|END\s+TRY)` -/
def controlBoundary : Regex :=
  .seq .atStart <| anyOf
    [.lit "ELSE", .lit "ELSIF", .lit "ELSEIF", .lit "WHEN", .lit "EXCEPTION", keyword "END",
      spaced ["BEGIN", "CATCH"], spaced ["END", "TRY"]]

/-- `(?is)^\s*(?:BEGIN|ELSE|ELSIF\b.*THEN|ELSEIF\b.*THEN|EXCEPTION|END\s+(?:TRY|CATCH))\s*;?\s*$` -/
def immediateBoundary : Regex :=
  .all [.atStart, .star .space, anyOf
      [.lit "BEGIN", .lit "ELSE", .all [keyword "ELSIF", .star (.char fun _ => true), .lit "THEN"],
        .all [keyword "ELSEIF", .star (.char fun _ => true), .lit "THEN"], .lit "EXCEPTION",
        spaced ["END", "TRY"], spaced ["END", "CATCH"]],
    .star .space, .opt (.lit ";"), .star .space, .atEnd]

/-- `bool(re.match(…, text))` -/
def isMatch (r : Regex) (text : List Char) : Bool := (r.matchAt ⟨none, text⟩).isSome

/-- `len(re.findall(…, text))` for a word between boundaries. -/
def countMatches (r : Regex) (prev : Option Char) : List Char → Nat
  | [] => 0
  | c :: cs => (if (r.matchAt ⟨prev, c :: cs⟩).isSome then 1 else 0) + countMatches r (some c) cs

/-- `re.sub(r"\s+", " ", text.strip().upper())` -/
def normalize (text : List Char) : List Char :=
  List.intercalate [' '] (Text.split (Text.upper text))

def startsWithAny (starts : List String) (text : List Char) : Bool :=
  starts.any fun s => s.toList.isPrefixOf text

def endsWithAny (ends : List String) (text : List Char) : Bool :=
  ends.any fun s => s.toList.isSuffixOf text

/-- `str.rstrip()` -/
def rstrip (text : List Char) : List Char := (text.reverse.dropWhile Text.isSpace).reverse

/-- `_has_unclosed_expression_case`. -/
def hasUnclosedExpressionCase (text : List Char) : Bool :=
  let normalized := normalize text
  if startsWithAny ["CASE "] normalized || normalized = "CASE".toList then false
  else
    let count (word : String) := countMatches (.seq .boundary (keyword word)) none normalized
    count "END" < count "CASE"

/-- `_expression_case_continuation`. -/
def expressionCaseContinuation (previous current : List Char) : Bool :=
  hasUnclosedExpressionCase previous &&
    startsWithAny ["CASE", "WHEN ", "ELSE", "END"] (normalize current)

/-- The beginnings of a statement that the beginnings next to them go on. -/
def continuations : List (List String × List String) :=
  [(["UPDATE "], ["SET ", "OUTPUT ", "FROM ", "WHERE ", "OPTION "]),
    (["DELETE "], ["OUTPUT ", "FROM ", "WHERE ", "OPTION "]),
    (["INSERT "], ["VALUES ", "SELECT ", "OUTPUT ", "RETURNING ", "ON CONFLICT ", "ON DUPLICATE "]),
    (["MERGE "], ["USING ", "ON ", "WHEN ", "OUTPUT "]),
    (["WITH "], ["SELECT ", "INSERT ", "UPDATE ", "DELETE ", "MERGE "]),
    (["SELECT "], ["FROM ", "WHERE ", "GROUP ", "HAVING ", "ORDER ", "UNION ", "INTO ", "FOR ",
      "OPTION "]),
    (["SIGNAL ", "RESIGNAL "], ["SET "]),
    (["EXEC ", "EXECUTE "], ["USING ", "INTO ", "OUTPUT "])]

/-- `_continues_statement`. -/
def continuesStatement (previous current : List Char) : Bool :=
  endsWithAny [",", "(", "=", "+", "-", "*", "/", "||"] (rstrip previous) ||
    continuations.any fun c =>
      startsWithAny c.1 (normalize previous) && startsWithAny c.2 (normalize current)

/-! ## Statements -/

/-- A piece and the offset in the body it starts at. -/
structure Piece where
  offset : Nat
  text : List Char
deriving DecidableEq

def joinPieces (pieces : List Piece) : List Char := pieces.flatMap Piece.text

/-- `_Statement`, with the pieces it was joined from. -/
structure Statement where
  text : List Char
  startLine : Nat
  endLine : Nat
  startOffset : Nat
  endOffset : Nat
  pieces : List Piece
deriving DecidableEq

/-- The variables of `_logical_statements`. -/
structure ScanState where
  statements : List Statement := []
  buffer : List Piece := []
  startLine : Nat := 1
  startLocalOffset : Nat := 0
  localOffset : Nat := 0

/-- `text and text.strip(';').strip()` -/
def hasText (text : List Char) : Bool := Text.strip (Text.stripBy (· = ';') text) ≠ []

namespace ScanState

/-- `flush`. -/
def flush (absoluteStart endLine endLocalOffset : Nat) (s : ScanState) : ScanState :=
  let text := Text.strip (joinPieces s.buffer)
  { s with
    statements :=
      if hasText text then
        s.statements ++ [⟨text, s.startLine, endLine, absoluteStart + s.startLocalOffset,
          absoluteStart + endLocalOffset, s.buffer⟩]
      else s.statements
    buffer := [] }

/-- A statement in the buffer ends before a piece that starts like this. -/
def endsBefore (clean : List Char) (s : ScanState) : Bool :=
  let previous := rstrip (joinPieces s.buffer)
  !s.buffer.isEmpty && isMatch starters clean && !expressionCaseContinuation previous clean &&
    (isMatch controlBoundary clean || !continuesStatement previous clean)

/-- `buffer.append(piece)`, with the assignments before it. -/
def append (index : Nat) (piece : List Char) (s : ScanState) : ScanState :=
  { s with
    startLine := if s.buffer.isEmpty then index else s.startLine
    startLocalOffset := if s.buffer.isEmpty then s.localOffset else s.startLocalOffset
    buffer := s.buffer ++ [⟨s.localOffset, piece⟩] }

/-- The statement in the buffer ends with the last piece. -/
def endsAfter (piece clean : List Char) (s : ScanState) : Bool :=
  endsWithAny [";"] (rstrip piece) ||
    isMatch immediateBoundary clean && !hasUnclosedExpressionCase (joinPieces s.buffer)

/-- `local_offset += n`. -/
def advance (n : Nat) (s : ScanState) : ScanState := { s with localOffset := s.localOffset + n }

/-- The body of the loop over the pieces. -/
def onPiece (absoluteStart index : Nat) (piece pieceMask : List Char) (s : ScanState) : ScanState :=
  let clean := Text.strip pieceMask
  if clean = [] then s.advance piece.length
  else
    let s := if s.endsBefore clean then
        s.flush absoluteStart (if s.startLine < index then index - 1 else index) s.localOffset
      else s
    let s := s.append index piece
    let s := if s.endsAfter piece clean then
        s.flush absoluteStart index (s.localOffset + piece.length)
      else s
    s.advance piece.length

end ScanState

/-- The mask the loop takes for a piece. -/
def pieceMask (maskedLine : List Char) (cursor : Nat) : List Char :=
  let masked := splitSemicolonPieces maskedLine
  if masked = [] then maskedLine else (masked[min cursor (masked.length - 1)]?).getD []

namespace ScanState

/-- The loop over the pieces. -/
def onPieces (absoluteStart index : Nat) (maskedLine : List Char) :
    Nat → List (List Char) → ScanState → ScanState
  | _, [], s => s
  | cursor, piece :: pieces, s =>
    onPieces absoluteStart index maskedLine (cursor + 1) pieces
      (s.onPiece absoluteStart index piece (pieceMask maskedLine cursor))

/-- The body of the loop over the lines. -/
def onLine (absoluteStart index : Nat) (rawLine maskedLine : List Char) (s : ScanState) :
    ScanState :=
  if isDirective maskedLine then s.advance rawLine.length
  else
    let pieces := splitSemicolonPieces rawLine
    let consumed := (pieces.map List.length).sum
    (s.onPieces absoluteStart index maskedLine 0 pieces).advance (rawLine.length - consumed)

/-- The loop over the lines. -/
def onLines (absoluteStart : Nat) : Nat → List (List Char × List Char) → ScanState → ScanState
  | _, [], s => s
  | index, line :: lines, s =>
    onLines absoluteStart (index + 1) lines (s.onLine absoluteStart index line.1 line.2)

end ScanState

/-- `_logical_statements`; its third argument is not read. -/
def logicalStatements (body : List Char) (absoluteStart : Nat) : List Statement :=
  let lines := splitlines body
  let s := ScanState.onLines absoluteStart 1 (lines.zip (splitlines (maskComments body))) {}
  if s.buffer = [] then s.statements
  else (s.flush absoluteStart (max lines.length 1) body.length).statements

end AtlasDb.Dialects
