import AtlasDb.Core.Text

/-!
# The lexical scanner

`parsing/lexer.py: Db2LexicalScanner`. Comments are skipped, nested ones included; a doubled quote
inside a literal or a delimited identifier stays part of it. Line and column are left out, and
letters and digits are those of ASCII.
-/

namespace AtlasDb.Parsing

open Core

inductive TokenKind where
  | word
  | string
  | quotedIdentifier
  | number
  | symbol
deriving DecidableEq

structure Token where
  kind : TokenKind
  value : String
  upper : String
  offset : Nat := 0
deriving DecidableEq

structure LexResult where
  tokens : List Token
  unterminatedString : Bool := false
  unterminatedComment : Bool := false
deriving DecidableEq

/-! ## One token -/

/-- After the opening quote: the characters up to the closing one, backwards, what follows, and
whether it was closed. -/
def readQuoted (quote : Char) (acc : List Char) : List Char → List Char × List Char × Bool
  | [] => (acc, [], false)
  | c :: cs =>
    if c = quote then
      match cs with
      | c' :: cs' =>
        if c' = quote then readQuoted quote (c' :: c :: acc) cs' else (c :: acc, cs, true)
      | [] => (c :: acc, [], true)
    else readQuoted quote (c :: acc) cs

/-- What follows a comment with so many levels open, and whether it was closed. -/
def skipComment : Nat → List Char → List Char × Bool
  | 0, cs => (cs, true)
  | _ + 1, [] => ([], false)
  | depth + 1, '/' :: '*' :: cs => skipComment (depth + 2) cs
  | depth + 1, '*' :: '/' :: cs => skipComment depth cs
  | depth + 1, _ :: cs => skipComment (depth + 1) cs

/-- A character that may start a word; with digits, one that may go on in it. -/
def isWordStart (c : Char) : Bool := c.isAlpha || c = '_' || c = '#' || c = '$' || c = '@'

def isWordPart (c : Char) : Bool := isWordStart c || c.isDigit

def isNumberPart (c : Char) : Bool :=
  c.isDigit || c = '.' || c = 'E' || c = 'e' || c = '+' || c = '-'

def twoCharSymbols : List (List Char) :=
  ["<=".toList, ">=".toList, "<>".toList, "!=".toList, "||".toList, ":=".toList, "=>".toList]

/-- A token that is upper-cased. -/
def foldedToken (kind : TokenKind) (value : List Char) (offset : Nat) : Token :=
  ⟨kind, String.ofList value, String.ofList (Text.upper value), offset⟩

/-! ## The scan -/

def LexResult.push (token : Token) (r : LexResult) : LexResult :=
  { r with tokens := token :: r.tokens }

/-- The loop of `scan`; every turn consumes a character. -/
def scanLoop (total : Nat) : Nat → List Char → LexResult
  | 0, _ => { tokens := [] }
  | _ + 1, [] => { tokens := [] }
  | fuel + 1, c :: cs =>
    let offset := total - (cs.length + 1)
    if Text.isSpace c then scanLoop total fuel cs
    else if c = '-' ∧ cs.head? = some '-' then scanLoop total fuel (cs.dropWhile (· ≠ '\n'))
    else if c = '/' ∧ cs.head? = some '*' then
      let (rest, closed) := skipComment 1 cs.tail
      let result := scanLoop total fuel rest
      { result with unterminatedComment := result.unterminatedComment || !closed }
    else if c = '\'' then
      let (value, rest, closed) := readQuoted '\'' [c] cs
      let raw := String.ofList value.reverse
      let result := (scanLoop total fuel rest).push ⟨.string, raw, raw, offset⟩
      { result with unterminatedString := result.unterminatedString || !closed }
    else if c = '"' then
      let (value, rest, closed) := readQuoted '"' [c] cs
      let result :=
        (scanLoop total fuel rest).push (foldedToken .quotedIdentifier value.reverse offset)
      { result with unterminatedString := result.unterminatedString || !closed }
    else if isWordStart c then
      (scanLoop total fuel (cs.dropWhile isWordPart)).push
        (foldedToken .word (c :: cs.takeWhile isWordPart) offset)
    else if c.isDigit then
      (scanLoop total fuel (cs.dropWhile isNumberPart)).push
        (foldedToken .number (c :: cs.takeWhile isNumberPart) offset)
    else if (c :: cs.take 1) ∈ twoCharSymbols then
      let symbol := String.ofList (c :: cs.take 1)
      (scanLoop total fuel cs.tail).push ⟨.symbol, symbol, symbol, offset⟩
    else (scanLoop total fuel cs).push ⟨.symbol, String.singleton c, String.singleton c, offset⟩

/-- `Db2LexicalScanner.scan`. -/
def scan (text : String) : LexResult :=
  scanLoop text.toList.length text.toList.length text.toList

example : (scan "X <= 'a''b' -- end").tokens.map Token.value = ["X", "<=", "'a''b'"] := by
  decide +kernel

end AtlasDb.Parsing
