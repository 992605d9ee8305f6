import AtlasDb.Core.Text

/-!
# Regular expressions

The part of Python's `re` the analyses use: backtracking, leftmost, greedy, always with
`re.IGNORECASE`. Character classes are those of ASCII text.
-/

namespace AtlasDb.Core

inductive Regex where
  | empty
  | char (p : Char → Bool)
  | seq (a b : Regex)
  | alt (a b : Regex)
  | star (a : Regex)
  /-- `( )`, numbered -/
  | group (index : Nat) (a : Regex)
  /-- `\b` -/
  | boundary
  /-- `^` -/
  | atStart
  /-- `$`, at the very end -/
  | atEnd

namespace Regex

/-- `\w` -/
def isWordChar (c : Char) : Bool := c.isAlphanum || c = '_'

/-- `\s` -/
def space : Regex := char Text.isSpace

/-- A character, in either case. -/
def letter (c : Char) : Regex := char fun d => d.toUpper = c.toUpper

def literal (text : List Char) : Regex := text.foldr (fun c r => seq (letter c) r) empty

/-- A keyword. -/
def lit (text : String) : Regex := literal text.toList

def plus (a : Regex) : Regex := seq a (star a)

def opt (a : Regex) : Regex := alt a empty

/-- One after the other. -/
def all (rs : List Regex) : Regex := rs.foldr seq empty

def size : Regex → Nat
  | empty => 1
  | char _ => 1
  | seq a b => a.size + b.size + 1
  | alt a b => a.size + b.size + 1
  | star a => a.size + 1
  | group _ a => a.size + 1
  | boundary => 1
  | atStart => 1
  | atEnd => 1

/-- A place in the text: the character before it and what follows. -/
structure Place where
  prev : Option Char
  rest : List Char

/-- What a match leaves: the text after it and the groups. -/
structure Match where
  rest : List Char
  groups : List (Nat × List Char)

def boundaryAt (p : Place) : Bool :=
  (p.prev.any isWordChar) != (p.rest.head?.any isWordChar)

/-- Match at a place and go on with `k`. -/
def run : Nat → Regex → Place → List (Nat × List Char) →
    (Place → List (Nat × List Char) → Option Match) → Option Match
  | 0, _, _, _, _ => none
  | _ + 1, empty, p, groups, k => k p groups
  | _ + 1, char accepts, p, groups, k =>
    match p.rest with
    | [] => none
    | c :: cs => if accepts c then k ⟨some c, cs⟩ groups else none
  | fuel + 1, seq a b, p, groups, k => run fuel a p groups fun p groups => run fuel b p groups k
  | fuel + 1, alt a b, p, groups, k => (run fuel a p groups k).or (run fuel b p groups k)
  | fuel + 1, star a, p, groups, k =>
    (run fuel a p groups fun q groups =>
      if q.rest.length < p.rest.length then run fuel (star a) q groups k else none).or
      (k p groups)
  | fuel + 1, group index a, p, groups, k =>
    run fuel a p groups fun q groups =>
      k q ((index, p.rest.take (p.rest.length - q.rest.length)) :: groups)
  | _ + 1, boundary, p, groups, k => if boundaryAt p then k p groups else none
  | _ + 1, atStart, p, groups, k => if p.prev.isNone then k p groups else none
  | _ + 1, atEnd, p, groups, k => if p.rest = [] then k p groups else none

/-- Enough for every choice: a repetition consumes a character each time. -/
def fuelFor (r : Regex) (text : List Char) : Nat := (r.size + 1) * (text.length + 2)

/-- `re.match` at a place. -/
def matchAt (r : Regex) (p : Place) : Option Match :=
  run (fuelFor r p.rest) r p [] fun q groups => some ⟨q.rest, groups⟩

/-- `re.search` from a place on. -/
def searchFrom (r : Regex) (prev : Option Char) : List Char → Option Match
  | [] => matchAt r ⟨prev, []⟩
  | c :: cs => (matchAt r ⟨prev, c :: cs⟩).or (searchFrom r (some c) cs)

def search (r : Regex) (text : List Char) : Option Match := searchFrom r none text

/-- `re.fullmatch`. -/
def fullmatch (r : Regex) (text : List Char) : Option Match := matchAt (seq r atEnd) ⟨none, text⟩

/-- `re.finditer`, for a pattern that matches no empty text. -/
def findIterFrom (r : Regex) : Nat → Option Char → List Char → List Match
  | 0, _, _ => []
  | fuel + 1, prev, text =>
    match searchFrom r prev text with
    | none => []
    | some m =>
      let before := text.take (text.length - m.rest.length)
      m :: findIterFrom r fuel (before.getLast?.or prev) m.rest

def findIter (r : Regex) (text : List Char) : List Match := findIterFrom r text.length none text

/-- `match.group(index)`. -/
def Match.group (m : Match) (index : Nat) : List Char := (m.groups.lookup index).getD []

end Regex

end AtlasDb.Core
