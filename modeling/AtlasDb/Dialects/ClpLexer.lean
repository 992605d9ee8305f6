import AtlasDb.Parsing.Lexer
import AtlasDb.Dialects.CommentMask
import Mathlib.Data.List.Induction

/-!
# The lexical scanner with positions

`db2/clp_lexer.py: Db2LexicalScanner`, a copy of the scanner of the parsing package, with the line
and the column of every token and for any character classes (`CharClasses`). `Lexes` divides a text
into white space, comments, literals and tokens without the scanner. The scan is exact iff no number
of the text is directly followed by a line comment (`scan_exact_iff`): `-` goes on in a number, so
that the comment is read as a part of it.
-/

namespace AtlasDb.Dialects.Clp

open Core
open AtlasDb.Parsing (TokenKind twoCharSymbols)

/-! ## The scanner -/

/-- The methods of `str` the scanner asks, of which only this is used: what begins a comment or a
literal is no white space, letter or digit. -/
structure CharClasses where
  isspace : Char → Bool
  isalpha : Char → Bool
  isalnum : Char → Bool
  isdigit : Char → Bool
  upper : List Char → List Char
  delimiters : ∀ c ∈ ['-', '/', '\'', '"'],
    isspace c = false ∧ isalpha c = false ∧ isalnum c = false ∧ isdigit c = false

/-- `ch.isalpha() or ch in "_#$@"` -/
def CharClasses.isWordStart (classes : CharClasses) (c : Char) : Bool :=
  classes.isalpha c || c = '_' || c = '#' || c = '$' || c = '@'

def CharClasses.isWordPart (classes : CharClasses) (c : Char) : Bool :=
  classes.isalnum c || c = '_' || c = '#' || c = '$' || c = '@'

/-- `text[i].isdigit() or text[i] in ".Ee+-"` -/
def CharClasses.isNumberPart (classes : CharClasses) (c : Char) : Bool :=
  classes.isdigit c || c = '.' || c = 'E' || c = 'e' || c = '+' || c = '-'

structure Position where
  line : Nat := 1
  column : Nat := 1
  offset : Nat := 0

/-- `advance_char`, with the index. -/
def Position.advance (p : Position) (c : Char) : Position :=
  if c = '\n' then { line := p.line + 1, column := 1, offset := p.offset + 1 }
  else { p with column := p.column + 1, offset := p.offset + 1 }

def Position.read (p : Position) (text : List Char) : Position := text.foldl Position.advance p

structure Token where
  kind : TokenKind
  value : List Char
  upper : List Char
  line : Nat
  column : Nat
  offset : Nat
deriving DecidableEq

structure LexResult where
  tokens : List Token := []
  codeLines : List Nat := []
  unterminatedString : Bool := false
  unterminatedComment : Bool := false
deriving DecidableEq

/-- Behind an opening quote: the characters up to the closing one, what follows, and whether it was
closed. -/
def takeQuoted (quote : Char) : List Char → List Char × List Char × Bool
  | [] => ([], [], false)
  | [c] => ([c], [], c = quote)
  | c :: d :: cs =>
    if c = quote then
      if d = quote then
        let (value, rest, closed) := takeQuoted quote cs
        (c :: d :: value, rest, closed)
      else ([c], d :: cs, true)
    else
      let (value, rest, closed) := takeQuoted quote (d :: cs)
      (c :: value, rest, closed)

/-- Behind an opening `/*`, with so many levels open: the characters up to the end of the comment,
what follows, and whether it was closed. -/
def takeComment : Nat → List Char → List Char × List Char × Bool
  | 0, cs => ([], cs, true)
  | _ + 1, [] => ([], [], false)
  | _ + 1, [c] => ([c], [], false)
  | depth + 1, c :: d :: cs =>
    if c = '/' ∧ d = '*' then
      let (body, rest, closed) := takeComment (depth + 2) cs
      (c :: d :: body, rest, closed)
    else if c = '*' ∧ d = '/' then
      let (body, rest, closed) := takeComment depth cs
      (c :: d :: body, rest, closed)
    else
      let (body, rest, closed) := takeComment (depth + 1) (d :: cs)
      (c :: body, rest, closed)

/-- One turn of the loop: the characters it goes over, what follows, and what it records. -/
structure Turn where
  text : List Char
  rest : List Char
  kind : Option TokenKind := none
  openString : Bool := false
  openComment : Bool := false

/-- The body of the loop of `scan`, at the character `c`. -/
def turn (classes : CharClasses) (c : Char) (cs : List Char) : Turn :=
  if classes.isspace c then { text := [c], rest := cs }
  else if c = '-' ∧ cs.head? = some '-' then
    { text := (c :: cs).takeWhile (· ≠ '\n'), rest := (c :: cs).dropWhile (· ≠ '\n') }
  else if c = '/' ∧ cs.head? = some '*' then
    let (body, rest, closed) := takeComment 1 cs.tail
    { text := c :: '*' :: body, rest := rest, openComment := !closed }
  else if c = '\'' then
    let (body, rest, closed) := takeQuoted '\'' cs
    { text := c :: body, rest := rest, kind := some .string, openString := !closed }
  else if c = '"' then
    let (body, rest, closed) := takeQuoted '"' cs
    { text := c :: body, rest := rest, kind := some .quotedIdentifier, openString := !closed }
  else if classes.isWordStart c then
    { text := c :: cs.takeWhile classes.isWordPart, rest := cs.dropWhile classes.isWordPart,
      kind := some .word }
  else if classes.isdigit c then
    { text := c :: cs.takeWhile classes.isNumberPart, rest := cs.dropWhile classes.isNumberPart,
      kind := some .number }
  else if (c :: cs.take 1) ∈ twoCharSymbols then
    { text := c :: cs.take 1, rest := cs.tail, kind := some .symbol }
  else { text := [c], rest := cs, kind := some .symbol }

/-- The `upper` of a token. -/
def upperOf (classes : CharClasses) : TokenKind → List Char → List Char
  | .string, value => value
  | .symbol, value => value
  | _, value => classes.upper value

def tokenOf (classes : CharClasses) (p : Position) (kind : TokenKind) (value : List Char) : Token :=
  { kind := kind, value := value, upper := upperOf classes kind value, line := p.line,
    column := p.column, offset := p.offset }

/-- What a turn that begins at `p` adds to the result of the turns behind it. -/
def Turn.record (classes : CharClasses) (p : Position) (t : Turn) (r : LexResult) : LexResult :=
  { tokens := (t.kind.map fun kind => tokenOf classes p kind t.text).toList ++ r.tokens
    codeLines := (if t.kind.isSome || t.openComment then [p.line] else []) ++ r.codeLines
    unterminatedString := t.openString || r.unterminatedString
    unterminatedComment := t.openComment || r.unterminatedComment }

/-- The loop of `scan`; every turn goes over a character. -/
def scanLoop (classes : CharClasses) : Nat → Position → List Char → LexResult
  | 0, _, _ => {}
  | _ + 1, _, [] => {}
  | fuel + 1, p, c :: cs =>
    let t := turn classes c cs
    t.record classes p (scanLoop classes fuel (p.read t.text) t.rest)

def scanFrom (classes : CharClasses) (p : Position) (text : List Char) : LexResult :=
  scanLoop classes text.length p text

/-- `Db2LexicalScanner.scan` -/
def scan (classes : CharClasses) (text : List Char) : LexResult := scanFrom classes {} text

/-! ## Lexical structure -/

/-- A part of a text. The body of a comment is what stands behind `--` or `/*`, the body of a
literal what stands between its quotes. -/
inductive Piece where
  | space (c : Char)
  | lineComment (body : List Char)
  | blockComment (body : List Char)
  | openComment (body : List Char)
  | literal (quote : Char) (body : List Char)
  | openLiteral (quote : Char) (body : List Char)
  | word (text : List Char)
  | number (text : List Char)
  | symbol (text : List Char)

def Piece.text : Piece → List Char
  | .space c => [c]
  | .lineComment body => '-' :: '-' :: body
  | .blockComment body => '/' :: '*' :: body
  | .openComment body => '/' :: '*' :: body
  | .literal quote body => quote :: (body ++ [quote])
  | .openLiteral quote body => quote :: body
  | .word text => text
  | .number text => text
  | .symbol text => text

/-- What becomes of a text in quotes. -/
def literalKind (quote : Char) : TokenKind := if quote = '\'' then .string else .quotedIdentifier

def Piece.kind : Piece → Option TokenKind
  | .literal quote _ => some (literalKind quote)
  | .openLiteral quote _ => some (literalKind quote)
  | .word _ => some .word
  | .number _ => some .number
  | .symbol _ => some .symbol
  | _ => none

def Piece.isComment : Piece → Bool
  | .lineComment _ => true
  | .blockComment _ => true
  | .openComment _ => true
  | _ => false

def Piece.isOpenComment : Piece → Bool
  | .openComment _ => true
  | _ => false

def Piece.isOpenLiteral : Piece → Bool
  | .openLiteral _ _ => true
  | _ => false

/-- The text closes so many levels of a comment, the last one at its end. -/
inductive Closes : Nat → List Char → Prop where
  | done : Closes 0 []
  | opens {depth : Nat} {text : List Char} (h : Closes (depth + 2) text) :
      Closes (depth + 1) ('/' :: '*' :: text)
  | closes {depth : Nat} {text : List Char} (h : Closes depth text) :
      Closes (depth + 1) ('*' :: '/' :: text)
  | other {depth : Nat} {c : Char} {text : List Char} (hopens : ¬(c = '/' ∧ text.head? = some '*'))
      (hcloses : ¬(c = '*' ∧ text.head? = some '/')) (h : Closes (depth + 1) text) :
      Closes (depth + 1) (c :: text)

/-- The text leaves a level open at its end. -/
inductive StaysOpen : Nat → List Char → Prop where
  | done {depth : Nat} : StaysOpen (depth + 1) []
  | opens {depth : Nat} {text : List Char} (h : StaysOpen (depth + 2) text) :
      StaysOpen (depth + 1) ('/' :: '*' :: text)
  | closes {depth : Nat} {text : List Char} (h : StaysOpen depth text) :
      StaysOpen (depth + 1) ('*' :: '/' :: text)
  | other {depth : Nat} {c : Char} {text : List Char} (hopens : ¬(c = '/' ∧ text.head? = some '*'))
      (hcloses : ¬(c = '*' ∧ text.head? = some '/')) (h : StaysOpen (depth + 1) text) :
      StaysOpen (depth + 1) (c :: text)

/-- A text that may stand between quotes: the quote occurs in it doubled only. -/
inductive Doubled (quote : Char) : List Char → Prop where
  | nil : Doubled quote []
  | other {c : Char} {text : List Char} (hc : c ≠ quote) (h : Doubled quote text) :
      Doubled quote (c :: text)
  | doubled {text : List Char} (h : Doubled quote text) : Doubled quote (quote :: quote :: text)

/-- The character begins neither white space nor a comment, a literal, a word or a number. -/
structure Ordinary (classes : CharClasses) (c : Char) (rest : List Char) : Prop where
  space : classes.isspace c = false
  line : ¬(c = '-' ∧ rest.head? = some '-')
  block : ¬(c = '/' ∧ rest.head? = some '*')
  quote : c ≠ '\'' ∧ c ≠ '"'
  word : classes.isWordStart c = false
  digit : classes.isdigit c = false

/-- The pieces of a text, read from left to right. A number ends in front of a line comment. -/
inductive Lexes (classes : CharClasses) : List Char → List Piece → Prop where
  | nil : Lexes classes [] []
  | space {c : Char} {rest : List Char} {pieces : List Piece} (hc : classes.isspace c = true)
      (h : Lexes classes rest pieces) : Lexes classes (c :: rest) (.space c :: pieces)
  | line {body rest : List Char} {pieces : List Piece} (hbody : '\n' ∉ body)
      (hrest : ∀ c ∈ rest.head?, c = '\n') (h : Lexes classes rest pieces) :
      Lexes classes ('-' :: '-' :: (body ++ rest)) (.lineComment body :: pieces)
  | block {body rest : List Char} {pieces : List Piece} (hbody : Closes 1 body)
      (h : Lexes classes rest pieces) :
      Lexes classes ('/' :: '*' :: (body ++ rest)) (.blockComment body :: pieces)
  | openBlock {body : List Char} (hbody : StaysOpen 1 body) :
      Lexes classes ('/' :: '*' :: body) [.openComment body]
  | literal {quote : Char} {body rest : List Char} {pieces : List Piece}
      (hquote : quote = '\'' ∨ quote = '"') (hbody : Doubled quote body)
      (hrest : rest.head? ≠ some quote) (h : Lexes classes rest pieces) :
      Lexes classes (quote :: (body ++ quote :: rest)) (.literal quote body :: pieces)
  | openLiteral {quote : Char} {body : List Char} (hquote : quote = '\'' ∨ quote = '"')
      (hbody : Doubled quote body) : Lexes classes (quote :: body) [.openLiteral quote body]
  | word {c : Char} {text rest : List Char} {pieces : List Piece}
    (hspace : classes.isspace c = false)
      (hc : classes.isWordStart c = true) (htext : ∀ d ∈ text, classes.isWordPart d = true)
      (hrest : ∀ d ∈ rest.head?, classes.isWordPart d = false) (h : Lexes classes rest pieces) :
      Lexes classes (c :: (text ++ rest)) (.word (c :: text) :: pieces)
  | number {c : Char} {text rest : List Char} {pieces : List Piece}
      (hspace : classes.isspace c = false) (hword : classes.isWordStart c = false)
      (hc : classes.isdigit c = true) (htext : ∀ d ∈ text, classes.isNumberPart d = true)
      (hdashes : Absent ['-', '-'] (text ++ rest.take 1))
      (hrest : (∀ d ∈ rest.head?, classes.isNumberPart d = false) ∨
        ∃ rest', rest = '-' :: '-' :: rest')
      (h : Lexes classes rest pieces) :
      Lexes classes (c :: (text ++ rest)) (.number (c :: text) :: pieces)
  | twoChar {c d : Char} {rest : List Char} {pieces : List Piece}
      (hc : Ordinary classes c (d :: rest)) (hsymbol : [c, d] ∈ twoCharSymbols)
      (h : Lexes classes rest pieces) : Lexes classes (c :: d :: rest) (.symbol [c, d] :: pieces)
  | symbol {c : Char} {rest : List Char} {pieces : List Piece} (hc : Ordinary classes c rest)
      (hsymbol : c :: rest.take 1 ∉ twoCharSymbols) (h : Lexes classes rest pieces) :
      Lexes classes (c :: rest) (.symbol [c] :: pieces)

variable {pieces : List Piece}

theorem Lexes.text {classes : CharClasses} {text : List Char}
    (h : Lexes classes text pieces) : pieces.flatMap Piece.text = text := by
  induction h with
  | nil => rfl
  | openBlock => simp [Piece.text]
  | openLiteral => simp [Piece.text]
  | space _ _ ih => simp [Piece.text, ih]
  | line _ _ _ ih => simp [Piece.text, ih]
  | block _ _ ih => simp [Piece.text, ih]
  | literal _ _ _ _ ih => simp [Piece.text, ih]
  | word _ _ _ _ _ ih => simp [Piece.text, ih]
  | number _ _ _ _ _ _ _ ih => simp [Piece.text, ih]
  | twoChar _ _ _ ih => simp [Piece.text, ih]
  | symbol _ _ _ ih => simp [Piece.text, ih]

/-! ## Comments and literals -/

theorem Closes.ne_nil {depth : Nat} {text : List Char} (h : Closes (depth + 1) text) :
    text ≠ [] := by
  cases h with
  | opens => exact List.cons_ne_nil _ _
  | closes => exact List.cons_ne_nil _ _
  | other => exact List.cons_ne_nil _ _

theorem takeComment_closes {depth : Nat} {body : List Char} (h : Closes depth body)
    (rest : List Char) :
    takeComment depth (body ++ rest) = (body, rest, true) := by
  induction h with
  | done => cases rest <;> rfl
  | opens _ ih => rw [List.cons_append, List.cons_append, takeComment, if_pos ⟨rfl, rfl⟩, ih]
  | closes _ ih =>
    rw [List.cons_append, List.cons_append, takeComment, if_neg (by decide), if_pos ⟨rfl, rfl⟩, ih]
  | @other depth c text hopens hcloses h ih =>
    cases text with
    | nil => exact absurd rfl h.ne_nil
    | cons d text =>
      have hopens' : ¬(c = '/' ∧ d = '*') := fun hcd => hopens ⟨hcd.1, congrArg some hcd.2⟩
      have hcloses' : ¬(c = '*' ∧ d = '/') := fun hcd => hcloses ⟨hcd.1, congrArg some hcd.2⟩
      rw [List.cons_append, List.cons_append, takeComment, if_neg hopens', if_neg hcloses']
      rw [List.cons_append] at ih
      rw [ih]

theorem takeComment_staysOpen {depth : Nat} {body : List Char} (h : StaysOpen depth body) :
    takeComment depth body = (body, [], false) := by
  induction h with
  | done => rfl
  | opens _ ih => rw [takeComment, if_pos ⟨rfl, rfl⟩, ih]
  | closes _ ih => rw [takeComment, if_neg (by decide), if_pos ⟨rfl, rfl⟩, ih]
  | @other depth c text hopens hcloses h ih =>
    cases text with
    | nil => rfl
    | cons d text =>
      have hopens' : ¬(c = '/' ∧ d = '*') := fun hcd => hopens ⟨hcd.1, congrArg some hcd.2⟩
      have hcloses' : ¬(c = '*' ∧ d = '/') := fun hcd => hcloses ⟨hcd.1, congrArg some hcd.2⟩
      rw [takeComment, if_neg hopens', if_neg hcloses', ih]

/-- What stands behind an opening `/*` closes the comment or leaves it open. -/
theorem closes_or_staysOpen (depth : Nat) (text : List Char) :
    (∃ body rest, text = body ++ rest ∧ Closes depth body) ∨ StaysOpen depth text := by
  induction hlength : text.length using Nat.strongRecOn generalizing depth text with
  | _ n ih =>
    cases depth with
    | zero => exact .inl ⟨[], text, rfl, .done⟩
    | succ depth =>
      cases text with
      | nil => exact .inr .done
      | cons c text =>
        by_cases hopens : c = '/' ∧ text.head? = some '*'
        · obtain ⟨rfl, hhead⟩ := hopens
          obtain ⟨text, rfl⟩ := List.head?_eq_some_iff.mp hhead
          rcases ih text.length (by rw [← hlength, List.length_cons, List.length_cons]; omega)
            (depth + 2) text rfl with ⟨body, rest, rfl, h⟩ | h
          · exact .inl ⟨'/' :: '*' :: body, rest, rfl, .opens h⟩
          · exact .inr (.opens h)
        by_cases hcloses : c = '*' ∧ text.head? = some '/'
        · obtain ⟨rfl, hhead⟩ := hcloses
          obtain ⟨text, rfl⟩ := List.head?_eq_some_iff.mp hhead
          rcases ih text.length (by rw [← hlength, List.length_cons, List.length_cons]; omega)
            depth text rfl with ⟨body, rest, rfl, h⟩ | h
          · exact .inl ⟨'*' :: '/' :: body, rest, rfl, .closes h⟩
          · exact .inr (.closes h)
        rcases ih text.length (by simp [← hlength]) (depth + 1) text rfl with
          ⟨body, rest, rfl, h⟩ | h
        · refine .inl ⟨c :: body, rest, rfl, .other ?_ ?_ h⟩
          · rintro ⟨hc, hhead⟩
            exact hopens ⟨hc, by rw [List.head?_append, hhead]; rfl⟩
          · rintro ⟨hc, hhead⟩
            exact hcloses ⟨hc, by rw [List.head?_append, hhead]; rfl⟩
        · exact .inr (.other hopens hcloses h)

theorem takeQuoted_closed {quote : Char} {body rest : List Char} (h : Doubled quote body)
    (hrest : rest.head? ≠ some quote) :
    takeQuoted quote (body ++ quote :: rest) = (body ++ [quote], rest, true) := by
  induction h with
  | nil =>
    cases rest with
    | nil => simp [takeQuoted]
    | cons d rest =>
      rw [List.nil_append, takeQuoted, if_pos rfl, if_neg fun hd => hrest (congrArg some hd)]
      rfl
  | @other c text hc h ih =>
    cases text with
    | nil =>
      rw [List.nil_append] at ih
      rw [List.cons_append, List.nil_append, takeQuoted, if_neg hc, ih]
      rfl
    | cons d text =>
      rw [List.cons_append] at ih
      rw [List.cons_append, List.cons_append, takeQuoted, if_neg hc, ih]
      rfl
  | doubled _ ih =>
    rw [List.cons_append, List.cons_append, takeQuoted, if_pos rfl, if_pos rfl, ih]
    rfl

theorem takeQuoted_open {quote : Char} {body : List Char} (h : Doubled quote body) :
    takeQuoted quote body = (body, [], false) := by
  induction h with
  | nil => rfl
  | @other c text hc h ih =>
    cases text with
    | nil => simp [takeQuoted, hc]
    | cons d text => rw [takeQuoted, if_neg hc, ih]
  | doubled _ ih => rw [takeQuoted, if_pos rfl, if_pos rfl, ih]

theorem quoted_or_doubled (quote : Char) (text : List Char) :
    (∃ body rest, text = body ++ quote :: rest ∧ Doubled quote body ∧ rest.head? ≠ some quote) ∨
      Doubled quote text := by
  induction hlength : text.length using Nat.strongRecOn generalizing text with
  | _ n ih =>
    cases text with
    | nil => exact .inr .nil
    | cons c text =>
      by_cases hc : c = quote
      · subst hc
        by_cases hdoubled : text.head? = some c
        · obtain ⟨text, rfl⟩ := List.head?_eq_some_iff.mp hdoubled
          rcases ih text.length (by rw [← hlength, List.length_cons, List.length_cons]; omega)
            text rfl with ⟨body, rest, rfl, h, hrest⟩ | h
          · exact .inl ⟨c :: c :: body, rest, rfl, .doubled h, hrest⟩
          · exact .inr (.doubled h)
        · exact .inl ⟨[], text, rfl, .nil, hdoubled⟩
      · rcases ih text.length (by simp [← hlength]) text rfl with ⟨body, rest, rfl, h, hrest⟩ | h
        · exact .inl ⟨c :: body, rest, rfl, .other hc h, hrest⟩
        · exact .inr (.other hc h)

/-! ## Every text has pieces -/

variable {classes : CharClasses}

theorem takeWhile_split (p : Char → Bool) (text : List Char) : ∃ run rest, text = run ++ rest ∧
    (∀ c ∈ run, p c = true) ∧ ∀ c ∈ rest.head?, p c = false := by
  refine ⟨text.takeWhile p, text.dropWhile p, List.takeWhile_append_dropWhile.symm,
    fun c hc => List.mem_takeWhile_imp hc, fun c hc => Text.head_dropWhile c hc⟩

theorem not_mem_dashes {text : List Char} {c : Char} (hc : c ≠ '-')
    (habsent : Absent ['-', '-'] text) :
    Absent ['-', '-'] (text ++ [c]) := by
  intro u v heq
  rcases List.eq_nil_or_concat v with rfl | ⟨v, d, rfl⟩
  · have hlast := congrArg List.getLast? heq
    simp at hlast
    exact hc hlast
  · rw [List.concat_eq_append, ← List.append_assoc] at heq
    exact habsent u v (List.append_inj' heq rfl).1

theorem number_split (classes : CharClasses) (text : List Char) : ∃ run rest, text = run ++ rest ∧
    (∀ c ∈ run, classes.isNumberPart c = true) ∧ Absent ['-', '-'] (run ++ rest.take 1) ∧
      ((∀ c ∈ rest.head?, classes.isNumberPart c = false) ∨
        ∃ rest', rest = '-' :: '-' :: rest') := by
  obtain ⟨run, rest, rfl, hrun, hrest⟩ := takeWhile_split classes.isNumberPart text
  by_cases habsent : Absent ['-', '-'] run
  · refine ⟨run, rest, rfl, hrun, ?_, .inl hrest⟩
    cases rest with
    | nil => rwa [List.take_nil, List.append_nil]
    | cons c rest =>
      apply not_mem_dashes _ habsent
      rintro rfl
      have := hrest '-' rfl
      simp [CharClasses.isNumberPart] at this
  · obtain ⟨body, rest', rfl, hfirst⟩ := exists_first (by simp) habsent
    refine ⟨body, '-' :: '-' :: (rest' ++ rest), by simp, fun c hc => hrun c (by simp [hc]), ?_,
      .inr ⟨_, rfl⟩⟩
    intro u v heq
    have hnil := hfirst u (v ++ ['-']) (by
      rw [← List.append_assoc, ← heq]
      simp)
    simp at hnil

/-- Every text has such a division. -/
theorem exists_lexes (classes : CharClasses) (text : List Char) :
    ∃ pieces, Lexes classes text pieces := by
  induction hlength : text.length using Nat.strongRecOn generalizing text with
  | _ n ih =>
    have hrest : ∀ rest : List Char, rest.length < text.length →
      ∃ pieces, Lexes classes rest pieces :=
      fun rest hlt => ih rest.length (hlength ▸ hlt) rest rfl
    cases text with
    | nil => exact ⟨[], .nil⟩
    | cons c text =>
      by_cases hspace : classes.isspace c = true
      · obtain ⟨pieces, h⟩ := hrest text (by simp)
        exact ⟨_, .space hspace h⟩
      rw [Bool.not_eq_true] at hspace
      by_cases hline : c = '-' ∧ text.head? = some '-'
      · obtain ⟨rfl, hhead⟩ := hline
        obtain ⟨text, rfl⟩ := List.head?_eq_some_iff.mp hhead
        obtain ⟨body, rest, rfl, hbody, hend⟩ := takeWhile_split (fun c => decide (c ≠ '\n')) text
        obtain ⟨pieces, h⟩ :=
          hrest rest (by simp only [List.length_cons, List.length_append]; omega)
        refine ⟨_, .line (fun hmem => ?_) (fun c hc => ?_) h⟩
        · simpa using hbody _ hmem
        · simpa using hend c hc
      by_cases hblock : c = '/' ∧ text.head? = some '*'
      · obtain ⟨rfl, hhead⟩ := hblock
        obtain ⟨text, rfl⟩ := List.head?_eq_some_iff.mp hhead
        rcases closes_or_staysOpen 1 text with ⟨body, rest, rfl, hbody⟩ | hopen
        · obtain ⟨pieces, h⟩ :=
            hrest rest (by simp only [List.length_cons, List.length_append]; omega)
          exact ⟨_, .block hbody h⟩
        · exact ⟨_, .openBlock hopen⟩
      by_cases hquote : c = '\'' ∨ c = '"'
      · rcases quoted_or_doubled c text with ⟨body, rest, rfl, hbody, hend⟩ | hopen
        · obtain ⟨pieces, h⟩ :=
            hrest rest (by simp only [List.length_cons, List.length_append]; omega)
          exact ⟨_, .literal hquote hbody hend h⟩
        · exact ⟨_, .openLiteral hquote hopen⟩
      by_cases hword : classes.isWordStart c = true
      · obtain ⟨run, rest, rfl, hrun, hend⟩ := takeWhile_split classes.isWordPart text
        obtain ⟨pieces, h⟩ :=
          hrest rest (by simp only [List.length_cons, List.length_append]; omega)
        exact ⟨_, .word hspace hword hrun hend h⟩
      rw [Bool.not_eq_true] at hword
      by_cases hdigit : classes.isdigit c = true
      · obtain ⟨run, rest, rfl, hrun, hdashes, hend⟩ := number_split classes text
        obtain ⟨pieces, h⟩ :=
          hrest rest (by simp only [List.length_cons, List.length_append]; omega)
        exact ⟨_, .number hspace hword hdigit hrun hdashes hend h⟩
      rw [Bool.not_eq_true] at hdigit
      have hordinary : Ordinary classes c text :=
        ⟨hspace, hline, hblock, not_or.mp hquote, hword, hdigit⟩
      by_cases hsymbol : c :: text.take 1 ∈ twoCharSymbols
      · cases text with
        | nil => exact absurd hsymbol (by simp [twoCharSymbols])
        | cons d text =>
          obtain ⟨pieces, h⟩ := hrest text (by simp only [List.length_cons]; omega)
          exact ⟨_, .twoChar hordinary hsymbol h⟩
      · obtain ⟨pieces, h⟩ := hrest text (by simp)
        exact ⟨_, .symbol hordinary hsymbol h⟩

/-! ## Turns -/

/-- The turn that goes over the piece. -/
def Piece.turn (piece : Piece) (rest : List Char) : Turn :=
  { text := piece.text, rest := rest, kind := piece.kind, openString := piece.isOpenLiteral,
    openComment := piece.isOpenComment }

/-- No number is directly followed by a line comment. -/
def Apart (pieces : List Piece) : Prop :=
  ∀ before text body after, pieces ≠ before ++ .number text :: .lineComment body :: after

theorem turn_space {c : Char} (hc : classes.isspace c = true) (cs : List Char) :
    turn classes c cs = { text := [c], rest := cs } := if_pos hc

theorem delimiter {c : Char} (hc : c ∈ ['-', '/', '\'', '"']) :
    classes.isspace c = false ∧ classes.isWordStart c = false ∧ classes.isWordPart c = false ∧
      classes.isdigit c = false := by
  obtain ⟨hspace, halpha, halnum, hdigit⟩ := classes.delimiters c hc
  have hother : (decide (c = '_') || decide (c = '#') || decide (c = '$') ||
    decide (c = '@')) = false := by
    simp only [List.mem_cons, List.not_mem_nil, or_false] at hc
    obtain rfl | rfl | rfl | rfl := hc
    all_goals rfl
  simp only [Bool.or_eq_false_iff] at hother
  obtain ⟨⟨⟨hunderscore, hhash⟩, hdollar⟩, hat⟩ := hother
  refine ⟨hspace, ?_, ?_, hdigit⟩
  · rw [CharClasses.isWordStart, halpha, hunderscore, hhash, hdollar, hat]
    rfl
  · rw [CharClasses.isWordPart, halnum, hunderscore, hhash, hdollar, hat]
    rfl

theorem Lexes.of_dashes {text rest : List Char} (h : Lexes classes text pieces)
    (htext : text = '-' :: '-' :: rest) : ∃ body after, pieces = .lineComment body :: after := by
  obtain ⟨hspace, hword, -, hdigit⟩ := @delimiter classes '-' (by simp)
  cases h with
  | nil => cases htext
  | line => exact ⟨_, _, rfl⟩
  | block => exact absurd (List.cons.inj htext).1 (by decide)
  | openBlock => exact absurd (List.cons.inj htext).1 (by decide)
  | space hc =>
    rw [(List.cons.inj htext).1, hspace] at hc
    cases hc
  | literal hquote =>
    rw [(List.cons.inj htext).1] at hquote
    exact absurd hquote (by decide)
  | openLiteral hquote =>
    rw [(List.cons.inj htext).1] at hquote
    exact absurd hquote (by decide)
  | word _ hc =>
    rw [(List.cons.inj htext).1, hword] at hc
    cases hc
  | number _ _ hc =>
    rw [(List.cons.inj htext).1, hdigit] at hc
    cases hc
  | twoChar hc =>
    exact absurd ⟨(List.cons.inj htext).1, by rw [(List.cons.inj htext).2]; rfl⟩ hc.line
  | symbol hc =>
    exact absurd ⟨(List.cons.inj htext).1, by rw [(List.cons.inj htext).2]; rfl⟩ hc.line

theorem turn_line {body rest : List Char} (hbody : '\n' ∉ body)
    (hrest : ∀ c ∈ rest.head?, c = '\n') :
    turn classes '-' ('-' :: (body ++ rest)) = (Piece.lineComment body).turn rest := by
  have hall : ∀ c ∈ '-' :: '-' :: body, decide (c ≠ '\n') = true := by
    intro c hc
    rw [List.mem_cons, List.mem_cons] at hc
    rcases hc with rfl | rfl | hc
    · decide
    · decide
    · exact decide_eq_true fun heq => hbody (heq ▸ hc)
  have htake : ('-' :: '-' :: (body ++ rest)).takeWhile (fun c => decide (c ≠ '\n')) =
      '-' :: '-' :: body := by
    show (('-' :: '-' :: body) ++ rest).takeWhile _ = _
    rw [List.takeWhile_append_of_pos hall]
    cases rest with
    | nil => simp
    | cons c rest => simp [hrest c rfl]
  have hdrop : ('-' :: '-' :: (body ++ rest)).dropWhile (fun c => decide (c ≠ '\n')) = rest := by
    show (('-' :: '-' :: body) ++ rest).dropWhile _ = _
    rw [List.dropWhile_append_of_pos hall]
    cases rest with
    | nil => rfl
    | cons c rest => simp [hrest c rfl]
  rw [turn, if_neg (by rw [(delimiter (by simp)).1]; exact Bool.false_ne_true), if_pos ⟨rfl, rfl⟩,
    htake, hdrop]
  rfl

theorem turn_block {body text rest : List Char} {closed : Bool}
    (hbody : takeComment 1 text = (body, rest, closed)) :
    turn classes '/' ('*' :: text) =
      { text := '/' :: '*' :: body, rest := rest, openComment := !closed } := by
  rw [turn, if_neg (by rw [(delimiter (by simp)).1]; exact Bool.false_ne_true), if_neg (by simp),
    if_pos ⟨rfl, rfl⟩, List.tail_cons, hbody]

theorem turn_quote {quote : Char} {body text rest : List Char} {closed : Bool}
    (hquote : quote = '\'' ∨ quote = '"') (hbody : takeQuoted quote text = (body, rest, closed)) :
    turn classes quote text =
      { text := quote :: body, rest := rest, kind := some (literalKind quote),
          openString := !closed } := by
  have hspace : ¬classes.isspace quote = true := by
    rw [(delimiter (by rcases hquote with rfl | rfl <;> simp)).1]
    exact Bool.false_ne_true
  rcases hquote with rfl | rfl
  · rw [turn, if_neg hspace, if_neg (by simp), if_neg (by simp), if_pos rfl, hbody]
    rfl
  · rw [turn, if_neg hspace, if_neg (by simp), if_neg (by simp), if_neg (by decide),
      if_pos rfl, hbody]
    rfl

theorem turn_letter {c : Char} {cs : List Char} (hspace : classes.isspace c = false)
    (hc : classes.isWordStart c = true ∨ classes.isdigit c = true) :
    turn classes c cs =
      if classes.isWordStart c then
        { text := c :: cs.takeWhile classes.isWordPart, rest := cs.dropWhile classes.isWordPart,
          kind := some .word }
      else
        { text := c :: cs.takeWhile classes.isNumberPart, rest := cs.dropWhile classes.isNumberPart,
          kind := some .number } := by
  have hne : ∀ d ∈ ['-', '/', '\'', '"'], c ≠ d := by
    rintro d hd rfl
    obtain ⟨-, hword, -, hdigit⟩ := @delimiter classes c hd
    rcases hc with hc | hc
    · exact absurd (hword.symm.trans hc) Bool.false_ne_true
    · exact absurd (hdigit.symm.trans hc) Bool.false_ne_true
  rw [turn, if_neg (by rw [hspace]; exact Bool.false_ne_true),
    if_neg fun h => hne '-' (by simp) h.1, if_neg fun h => hne '/' (by simp) h.1,
    if_neg (hne '\'' (by simp)), if_neg (hne '"' (by simp))]
  by_cases hword : classes.isWordStart c = true
  · rw [if_pos hword, if_pos hword]
  · rw [if_neg hword, if_neg hword, if_pos (hc.resolve_left hword)]

theorem turn_ordinary {c : Char} {cs : List Char} (h : Ordinary classes c cs) :
    turn classes c cs =
      if (c :: cs.take 1) ∈ twoCharSymbols then
        { text := c :: cs.take 1, rest := cs.tail, kind := some .symbol }
      else { text := [c], rest := cs, kind := some .symbol } := by
  rw [turn, if_neg (by rw [h.space]; exact Bool.false_ne_true), if_neg h.line, if_neg h.block,
    if_neg h.quote.1, if_neg h.quote.2, if_neg (by rw [h.word]; exact Bool.false_ne_true),
    if_neg (by rw [h.digit]; exact Bool.false_ne_true)]

theorem takeWhile_run {p : Char → Bool} {run rest : List Char} (hrun : ∀ c ∈ run, p c = true)
    (hrest : ∀ c ∈ rest.head?, p c = false) :
    (run ++ rest).takeWhile p = run ∧ (run ++ rest).dropWhile p = rest := by
  rw [List.takeWhile_append_of_pos hrun, List.dropWhile_append_of_pos hrun]
  cases rest with
  | nil => simp
  | cons c rest =>
    have hc := hrest c rfl
    simp [hc]

variable {piece : Piece}

/-- **Step lemma**: a turn goes over one piece, unless the piece is a number and a line comment
stands behind it. -/
theorem Lexes.turn_eq {text : List Char} (h : Lexes classes text (piece :: pieces))
    (happart : ∀ number body after, piece = .number number → pieces ≠ .lineComment body :: after) :
    ∃ c cs rest, text = c :: cs ∧ Lexes classes rest pieces ∧
    turn classes c cs = piece.turn rest := by
  cases h with
  | space hc h => exact ⟨_, _, _, rfl, h, turn_space hc _⟩
  | line hbody hrest h => exact ⟨_, _, _, rfl, h, turn_line hbody hrest⟩
  | block hbody h => exact ⟨_, _, _, rfl, h, turn_block (takeComment_closes hbody _)⟩
  | openBlock hbody => exact ⟨_, _, _, rfl, .nil, turn_block (takeComment_staysOpen hbody)⟩
  | literal hquote hbody hrest h =>
    exact ⟨_, _, _, rfl, h, turn_quote hquote (takeQuoted_closed hbody hrest)⟩
  | openLiteral hquote hbody =>
    exact ⟨_, _, _, rfl, .nil, turn_quote hquote (takeQuoted_open hbody)⟩
  | word hspace hc htext hrest h =>
    refine ⟨_, _, _, rfl, h, ?_⟩
    obtain ⟨htake, hdrop⟩ := takeWhile_run htext hrest
    rw [turn_letter hspace (.inl hc), if_pos hc, htake, hdrop]
    rfl
  | @number c run rest _ hspace hword hc htext hdashes hrest h =>
    refine ⟨_, _, _, rfl, h, ?_⟩
    rcases hrest with hrest | ⟨rest', rfl⟩
    · obtain ⟨htake, hdrop⟩ := takeWhile_run htext hrest
      rw [turn_letter hspace (.inr hc), if_neg (by rw [hword]; exact Bool.false_ne_true), htake,
        hdrop]
      rfl
    · obtain ⟨body, after, rfl⟩ := h.of_dashes rfl
      exact absurd rfl (happart _ body after rfl)
  | twoChar hc hsymbol h =>
    refine ⟨_, _, _, rfl, h, ?_⟩
    rw [turn_ordinary hc]
    exact if_pos hsymbol
  | symbol hc hsymbol h =>
    refine ⟨_, _, _, rfl, h, ?_⟩
    rw [turn_ordinary hc, if_neg hsymbol]
    rfl

/-! ## Runs -/

theorem takeComment_length (depth : Nat) (cs : List Char) :
    (takeComment depth cs).2.1.length ≤ cs.length := by
  fun_induction takeComment depth cs with
  | case1 => exact Nat.le_refl _
  | case2 => exact Nat.le_refl _
  | case3 => exact Nat.zero_le _
  | case4 depth c d cs _ body rest closed heq ih =>
    rw [heq] at ih
    exact Nat.le_trans ih (by simp only [List.length_cons]; omega)
  | case5 depth c d cs _ _ body rest closed heq ih =>
    rw [heq] at ih
    exact Nat.le_trans ih (by simp only [List.length_cons]; omega)
  | case6 depth c d cs _ _ body rest closed heq ih =>
    rw [heq] at ih
    exact Nat.le_trans ih (by simp)

theorem takeQuoted_length (quote : Char) (cs : List Char) :
    (takeQuoted quote cs).2.1.length ≤ cs.length := by
  fun_induction takeQuoted quote cs with
  | case1 => exact Nat.le_refl _
  | case2 => exact Nat.zero_le _
  | case3 cs value rest closed heq ih =>
    rw [heq] at ih
    exact Nat.le_trans ih (by simp only [List.length_cons]; omega)
  | case4 => simp
  | case5 c d cs _ value rest closed heq ih =>
    rw [heq] at ih
    exact Nat.le_trans ih (by simp)

theorem turn_length (classes : CharClasses) (c : Char) (cs : List Char) :
    (turn classes c cs).rest.length ≤ cs.length := by
  have hdrop (p : Char → Bool) : (cs.dropWhile p).length ≤ cs.length :=
    (List.dropWhile_sublist p).length_le
  have htail : cs.tail.length ≤ cs.length := by simp
  unfold turn
  split
  · exact Nat.le_refl _
  split
  · next hline =>
      rw [List.dropWhile_cons_of_pos (by rw [hline.1]; decide)]
      exact hdrop _
  split
  · exact Nat.le_trans (takeComment_length 1 cs.tail) htail
  split
  · exact takeQuoted_length _ cs
  split
  · exact takeQuoted_length _ cs
  split
  · exact hdrop _
  split
  · exact hdrop _
  split
  · exact htail
  · exact Nat.le_refl _

theorem scanLoop_fuel {fuel fuel' : Nat} {text : List Char} (p : Position) (h : text.length ≤ fuel)
    (h' : text.length ≤ fuel') : scanLoop classes fuel p text = scanLoop classes fuel' p text := by
  induction fuel generalizing fuel' p text with
  | zero =>
    obtain rfl := List.length_eq_zero_iff.mp (Nat.le_zero.mp h)
    cases fuel' with
    | zero => rfl
    | succ fuel' => rfl
  | succ fuel ih =>
    cases fuel' with
    | zero =>
      obtain rfl := List.length_eq_zero_iff.mp (Nat.le_zero.mp h')
      rfl
    | succ fuel' =>
      cases text with
      | nil => rfl
      | cons c cs =>
        have hlength := turn_length classes c cs
        rw [List.length_cons] at h h'
        rw [scanLoop, scanLoop, @ih fuel' _ _ (by omega) (by omega)]

theorem scanFrom_cons (p : Position) (c : Char) (cs : List Char) :
    scanFrom classes p (c :: cs) =
      (turn classes c cs).record classes p
        (scanFrom classes (p.read (turn classes c cs).text) (turn classes c cs).rest) := by
  rw [scanFrom, List.length_cons, scanLoop,
    scanLoop_fuel _ (turn_length classes c cs) (Nat.le_refl _)]
  rfl

/-- What the turns over the pieces add to a result. -/
def recordAll (classes : CharClasses) (p : Position) : List Piece → LexResult → LexResult
  | [], r => r
  | piece :: pieces, r =>
    (piece.turn []).record classes p (recordAll classes (p.read piece.text) pieces r)

def textOf (pieces : List Piece) : List Char := pieces.flatMap Piece.text

theorem Position.read_append (p : Position) (s t : List Char) :
    p.read (s ++ t) = (p.read s).read t :=
  List.foldl_append

theorem Apart.tail (h : Apart (piece :: pieces)) : Apart pieces :=
  fun before text body after heq => h (piece :: before) text body after (by rw [heq]; rfl)

/-- **Run lemma**: as long as no number is followed by a line comment, a turn goes over each
piece. -/
theorem Lexes.scan_run {before after : List Piece} {text : List Char} (p : Position)
    (h : Lexes classes text (before ++ after)) (happart : Apart (before ++ after.take 1)) :
    ∃ rest, Lexes classes rest after ∧
      scanFrom classes p text =
        recordAll classes p before (scanFrom classes (p.read (textOf before)) rest) := by
  induction before generalizing text p with
  | nil => exact ⟨text, h, rfl⟩
  | cons piece before ih =>
    have hnext : ∀ number body after', piece = .number number →
        before ++ after ≠ .lineComment body :: after' := by
      rintro number body after' rfl heq
      cases before with
      | nil =>
        rw [List.nil_append] at heq
        rw [heq] at happart
        exact happart [] number body [] rfl
      | cons piece before =>
        obtain rfl := (List.cons.inj heq).1
        exact happart [] number body _ rfl
    obtain ⟨c, cs, rest, rfl, hrest, hturn⟩ := h.turn_eq hnext
    obtain ⟨rest', hrest', hscan⟩ := ih (p.read piece.text) hrest happart.tail
    refine ⟨rest', hrest', ?_⟩
    rw [scanFrom_cons, hturn]
    show (piece.turn rest).record classes p (scanFrom classes (p.read piece.text) rest) = _
    rw [hscan, ← Position.read_append]
    rfl

/-! ## Positions -/

theorem Position.read_offset (p : Position) (text : List Char) :
    (p.read text).offset = p.offset + text.length := by
  induction text generalizing p with
  | nil => rfl
  | cons c text ih =>
    have hstep : (p.advance c).offset = p.offset + 1 := by
      unfold Position.advance
      split
      · rfl
      · rfl
    show ((p.advance c).read text).offset = _
    rw [ih, hstep, List.length_cons]
    omega

theorem Position.read_line (p : Position) (text : List Char) :
    (p.read text).line = p.line + text.count '\n' := by
  induction text generalizing p with
  | nil => rfl
  | cons c text ih =>
    show ((p.advance c).read text).line = _
    rw [ih]
    unfold Position.advance
    split
    · next hc =>
        rw [hc, List.count_cons_self]
        dsimp only
        omega
    · next hc => rw [List.count_cons_of_ne hc]

theorem Position.read_column (text : List Char) :
    (({} : Position).read text).column = 1 + (text.reverse.takeWhile (· ≠ '\n')).length := by
  induction text using List.reverseRecOn with
  | nil => rfl
  | append_singleton text c ih =>
    rw [Position.read_append, List.reverse_concat]
    show ((({} : Position).read text).advance c).column = _
    unfold Position.advance
    split
    · next hc => rw [List.takeWhile_cons_of_neg (by simp [hc])]; rfl
    · next hc =>
        rw [List.takeWhile_cons_of_pos (by simp [hc]), List.length_cons]
        dsimp only
        omega

/-! ## Exactness -/

/-- The tokens, comments and white space of a text are where the pieces are. -/
structure Exact (text : List Char) (pieces : List Piece) (r : LexResult) : Prop where
  ordered : r.tokens.Pairwise fun t u => t.offset + t.value.length ≤ u.offset
  slice : ∀ t ∈ r.tokens, t.value ≠ [] ∧ t.value = (text.drop t.offset).take t.value.length
  position : ∀ t ∈ r.tokens, t.line = 1 + (text.take t.offset).count '\n' ∧
    t.column = 1 + ((text.take t.offset).reverse.takeWhile (· ≠ '\n')).length
  comments : ∀ t ∈ r.tokens, ∀ before piece after, pieces = before ++ piece :: after →
    piece.isComment = true → t.offset + t.value.length ≤ (textOf before).length ∨
      (textOf before).length + piece.text.length ≤ t.offset
  gaps : ∀ i < text.length, (∃ t ∈ r.tokens, t.offset ≤ i ∧ i < t.offset + t.value.length) ∨
    ∃ before piece after, pieces = before ++ piece :: after ∧
      ((∃ c, piece = .space c) ∨ piece.isComment = true) ∧ (textOf before).length ≤ i ∧
        i < (textOf before).length + piece.text.length
  string : r.unterminatedString = true ↔ ∃ piece ∈ pieces.getLast?, piece.isOpenLiteral = true
  comment : r.unterminatedComment = true ↔ ∃ piece ∈ pieces.getLast?, piece.isOpenComment = true

theorem textOf_append (before after : List Piece) :
    textOf (before ++ after) = textOf before ++ textOf after := List.flatMap_append

@[simp] theorem textOf_cons (piece : Piece) (pieces : List Piece) :
    textOf (piece :: pieces) = piece.text ++ textOf pieces := rfl

/-- The tokens recorded are those of the pieces. -/
theorem mem_recordAll {p : Position} {r : LexResult} {t : Token} :
    t ∈ (recordAll classes p pieces r).tokens ↔ (∃ before piece after kind,
      pieces = before ++ piece :: after ∧ piece.kind = some kind ∧
        t = tokenOf classes (p.read (textOf before)) kind piece.text) ∨ t ∈ r.tokens := by
  induction pieces generalizing p with
  | nil =>
    constructor
    · exact .inr
    · rintro (⟨before, piece, after, kind, heq, -⟩ | h)
      · exact absurd heq (by simp)
      · exact h
  | cons piece pieces ih =>
    rw [recordAll, Turn.record, List.mem_append, ih]
    constructor
    · rintro (h | ⟨before, piece', after, kind, rfl, hkind, rfl⟩ | h)
      · obtain ⟨kind, hkind, rfl⟩ := Option.map_eq_some_iff.mp (Option.mem_toList.mp h)
        exact .inl ⟨[], piece, pieces, kind, rfl, hkind, rfl⟩
      · refine .inl ⟨piece :: before, piece', after, kind, rfl, hkind, ?_⟩
        rw [textOf_cons, Position.read_append]
      · exact .inr h
    · rintro (⟨before, piece', after, kind, heq, hkind, rfl⟩ | h)
      · cases before with
        | nil =>
          obtain ⟨rfl, rfl⟩ := List.cons.inj heq
          left
          rw [Option.mem_toList]
          exact Option.map_eq_some_iff.mpr ⟨kind, hkind, rfl⟩
        | cons piece'' before =>
          obtain ⟨rfl, rfl⟩ := List.cons.inj heq
          refine .inr (.inl ⟨before, piece', after, kind, rfl, hkind, ?_⟩)
          rw [textOf_cons, Position.read_append]
      · exact .inr (.inr h)

theorem recordAll_unterminated (p : Position) (pieces : List Piece) :
    (recordAll classes p pieces {}).unterminatedString = pieces.any Piece.isOpenLiteral ∧
      (recordAll classes p pieces {}).unterminatedComment = pieces.any Piece.isOpenComment := by
  induction pieces generalizing p with
  | nil => exact ⟨rfl, rfl⟩
  | cons piece pieces ih =>
    obtain ⟨hstring, hcomment⟩ := ih (p.read piece.text)
    rw [recordAll, Turn.record, List.any_cons, List.any_cons]
    dsimp only
    rw [hstring, hcomment]
    exact ⟨rfl, rfl⟩

theorem recordAll_ordered (p : Position) (pieces : List Piece) :
    (recordAll classes p pieces {}).tokens.Pairwise fun t u =>
    t.offset + t.value.length ≤ u.offset := by
  induction pieces generalizing p with
  | nil => exact List.Pairwise.nil
  | cons piece pieces ih =>
    rw [recordAll, Turn.record, List.pairwise_append]
    refine ⟨?_, ih _, ?_⟩
    · cases (piece.turn []).kind with
      | none => exact List.Pairwise.nil
      | some kind => exact List.pairwise_singleton _ _
    · intro t ht u hu
      obtain ⟨kind, -, rfl⟩ := Option.map_eq_some_iff.mp (Option.mem_toList.mp ht)
      rcases mem_recordAll.mp hu with ⟨before, piece', after, kind', -, -, rfl⟩ | hu
      · have hbegin : ((p.read piece.text).read (textOf before)).offset =
            p.offset + piece.text.length + (textOf before).length := by
          rw [Position.read_offset, Position.read_offset]
        show p.offset + piece.text.length ≤ ((p.read piece.text).read (textOf before)).offset
        omega
      · exact absurd hu (List.not_mem_nil)

theorem Lexes.text_ne_nil {text : List Char} (h : Lexes classes text pieces) :
    ∀ piece ∈ pieces, piece.text ≠ [] := by
  induction h with
  | nil => exact nofun
  | openBlock => simp [Piece.text]
  | openLiteral => simp [Piece.text]
  | space _ _ ih => exact List.forall_mem_cons.mpr ⟨List.cons_ne_nil _ _, ih⟩
  | line _ _ _ ih => exact List.forall_mem_cons.mpr ⟨List.cons_ne_nil _ _, ih⟩
  | block _ _ ih => exact List.forall_mem_cons.mpr ⟨List.cons_ne_nil _ _, ih⟩
  | literal _ _ _ _ ih => exact List.forall_mem_cons.mpr ⟨List.cons_ne_nil _ _, ih⟩
  | word _ _ _ _ _ ih => exact List.forall_mem_cons.mpr ⟨List.cons_ne_nil _ _, ih⟩
  | number _ _ _ _ _ _ _ ih => exact List.forall_mem_cons.mpr ⟨List.cons_ne_nil _ _, ih⟩
  | twoChar _ _ _ ih => exact List.forall_mem_cons.mpr ⟨List.cons_ne_nil _ _, ih⟩
  | symbol _ _ _ ih => exact List.forall_mem_cons.mpr ⟨List.cons_ne_nil _ _, ih⟩

theorem Lexes.open_last {text : List Char} (h : Lexes classes text pieces) (hmem : piece ∈ pieces)
    (hopen : piece.isOpenLiteral = true ∨ piece.isOpenComment = true) :
    pieces.getLast? = some piece := by
  have hlater {x : Piece} {pieces : List Piece} (hx : x.isOpenLiteral = false ∧
    x.isOpenComment = false)
      (hmem : piece ∈ x :: pieces) (ih : piece ∈ pieces → pieces.getLast? = some piece) :
      (x :: pieces).getLast? = some piece := by
    rcases List.mem_cons.mp hmem with rfl | hmem
    · rw [hx.1, hx.2] at hopen
      exact absurd hopen (by decide)
    · rw [List.getLast?_cons, ih hmem]
      rfl
  induction h with
  | nil => exact absurd hmem List.not_mem_nil
  | openBlock => rw [List.mem_singleton.mp hmem]; rfl
  | openLiteral => rw [List.mem_singleton.mp hmem]; rfl
  | space _ _ ih => exact hlater ⟨rfl, rfl⟩ hmem ih
  | line _ _ _ ih => exact hlater ⟨rfl, rfl⟩ hmem ih
  | block _ _ ih => exact hlater ⟨rfl, rfl⟩ hmem ih
  | literal _ _ _ _ ih => exact hlater ⟨rfl, rfl⟩ hmem ih
  | word _ _ _ _ _ ih => exact hlater ⟨rfl, rfl⟩ hmem ih
  | number _ _ _ _ _ _ _ ih => exact hlater ⟨rfl, rfl⟩ hmem ih
  | twoChar _ _ _ ih => exact hlater ⟨rfl, rfl⟩ hmem ih
  | symbol _ _ _ ih => exact hlater ⟨rfl, rfl⟩ hmem ih

theorem exists_piece_at {i : Nat} (h : i < (textOf pieces).length) :
    ∃ before piece after, pieces = before ++ piece :: after ∧ (textOf before).length ≤ i ∧
      i < (textOf before).length + piece.text.length := by
  induction pieces generalizing i with
  | nil => exact absurd h (Nat.not_lt_zero i)
  | cons piece pieces ih =>
    rw [textOf_cons, List.length_append] at h
    by_cases hi : i < piece.text.length
    · exact ⟨[], piece, pieces, rfl, Nat.zero_le _, by simpa [textOf] using hi⟩
    · obtain ⟨before, piece', after, rfl, hbegin, hend⟩ := @ih (i - piece.text.length) (by omega)
      refine ⟨piece :: before, piece', after, rfl, ?_, ?_⟩
      · rw [textOf_cons, List.length_append]
        omega
      · rw [textOf_cons, List.length_append]
        omega

theorem place_cases {α : Type} {before before' after after' : List α} {x x' : α}
    (h : before ++ x :: after = before' ++ x' :: after') :
    (before = before' ∧ x = x') ∨ (∃ mid, before' = before ++ x :: mid) ∨
      ∃ mid, before = before' ++ x' :: mid := by
  rcases List.append_eq_append_iff.mp h with ⟨mid, rfl, hmid⟩ | ⟨mid, rfl, hmid⟩
  · cases mid with
    | nil => exact .inl ⟨by simp, (List.cons.inj hmid).1⟩
    | cons y mid => exact .inr (.inl ⟨mid, by rw [(List.cons.inj hmid).1]⟩)
  · cases mid with
    | nil => exact .inl ⟨by simp, (List.cons.inj hmid).1.symm⟩
    | cons y mid => exact .inr (.inr ⟨mid, by rw [(List.cons.inj hmid).1]⟩)

theorem kind_of_isComment (h : piece.isComment = true) : piece.kind = none := by
  cases piece with
  | lineComment => rfl
  | blockComment => rfl
  | openComment => rfl
  | _ => cases h

theorem skipped_of_kind (h : piece.kind = none) :
    (∃ c, piece = .space c) ∨ piece.isComment = true := by
  cases piece with
  | space c => exact .inl ⟨c, rfl⟩
  | lineComment => exact .inr rfl
  | blockComment => exact .inr rfl
  | openComment => exact .inr rfl
  | _ => cases h

/-- The recorded tokens are exact. -/
theorem Lexes.exact_recordAll {text : List Char} (h : Lexes classes text pieces) :
    Exact text pieces (recordAll classes {} pieces {}) := by
  have htext : textOf pieces = text := h.text
  obtain ⟨hstring, hcomment⟩ := @recordAll_unterminated classes {} pieces
  have hmem : ∀ t ∈ (recordAll classes {} pieces {}).tokens, ∃ before piece after kind,
      pieces = before ++ piece :: after ∧ piece.kind = some kind ∧
        t = tokenOf classes (({} : Position).read (textOf before)) kind piece.text := by
    intro t ht
    rcases mem_recordAll.mp ht with ht | ht
    · exact ht
    · exact absurd ht List.not_mem_nil
  have hoffset (before : List Piece) :
      (({} : Position).read (textOf before)).offset = (textOf before).length := by
    rw [Position.read_offset]
    exact Nat.zero_add _
  refine ⟨recordAll_ordered _ _, fun t ht => ?_, fun t ht => ?_, fun t ht => ?_,
    fun i hi => ?_, ?_, ?_⟩
  · obtain ⟨before, piece, after, kind, rfl, -, rfl⟩ := hmem t ht
    refine ⟨h.text_ne_nil piece (by simp), ?_⟩
    show piece.text =
      (text.drop (({} : Position).read (textOf before)).offset).take piece.text.length
    rw [hoffset, ← htext, textOf_append, textOf_cons, List.drop_left, List.take_left]
  · obtain ⟨before, piece, after, kind, rfl, -, rfl⟩ := hmem t ht
    have htake : text.take (({} : Position).read (textOf before)).offset = textOf before := by
      rw [hoffset, ← htext, textOf_append, List.take_left]
    show (({} : Position).read (textOf before)).line = _ ∧
      (({} : Position).read (textOf before)).column = _
    rw [tokenOf]
    dsimp only
    rw [htake]
    exact ⟨Position.read_line _ _, Position.read_column _⟩
  · intro before' piece' after' heq hcomment'
    obtain ⟨before, piece, after, kind, hsplit, hkind, rfl⟩ := hmem t ht
    show (({} : Position).read (textOf before)).offset + piece.text.length ≤ _ ∨
      _ ≤ (({} : Position).read (textOf before)).offset
    rw [hoffset]
    rcases place_cases (hsplit.symm.trans heq) with ⟨-, rfl⟩ | ⟨mid, rfl⟩ | ⟨mid, rfl⟩
    · rw [kind_of_isComment hcomment'] at hkind
      cases hkind
    · left
      simp only [textOf_append, textOf_cons, List.length_append]
      omega
    · right
      simp only [textOf_append, textOf_cons, List.length_append]
      omega
  · rw [← htext] at hi
    obtain ⟨before, piece, after, heq, hbegin, hend⟩ := exists_piece_at hi
    cases hkind : piece.kind with
    | none => exact .inr ⟨before, piece, after, heq, skipped_of_kind hkind, hbegin, hend⟩
    | some kind =>
      left
      refine ⟨_, mem_recordAll.mpr (.inl ⟨before, piece, after, kind, heq, hkind, rfl⟩), ?_, ?_⟩
      · show (({} : Position).read (textOf before)).offset ≤ i
        rwa [hoffset]
      · show i < (({} : Position).read (textOf before)).offset + piece.text.length
        rwa [hoffset]
  · rw [hstring, List.any_eq_true]
    constructor
    · rintro ⟨piece, hpiece, hopen⟩
      exact ⟨piece, h.open_last hpiece (.inl hopen), hopen⟩
    · rintro ⟨piece, hpiece, hopen⟩
      exact ⟨piece, List.mem_of_getLast? hpiece, hopen⟩
  · rw [hcomment, List.any_eq_true]
    constructor
    · rintro ⟨piece, hpiece, hopen⟩
      exact ⟨piece, h.open_last hpiece (.inr hopen), hopen⟩
    · rintro ⟨piece, hpiece, hopen⟩
      exact ⟨piece, List.mem_of_getLast? hpiece, hopen⟩

/-- If pieces meet there is a first place where they do. -/
theorem exists_first_meeting (h : ¬ Apart pieces) :
    ∃ before text body after, pieces = before ++ .number text :: .lineComment body :: after ∧
      Apart (before ++ [.number text]) := by
  induction pieces with
  | nil => exact absurd (fun before text body after heq => by simp at heq) h
  | cons piece pieces ih =>
    by_cases hhere : ∃ text body after, piece :: pieces = .number text :: .lineComment body :: after
    · obtain ⟨text, body, after, heq⟩ := hhere
      refine ⟨[], text, body, after, heq, fun before text' body' after' heq' => ?_⟩
      have hlength := congrArg List.length heq'
      simp at hlength
      omega
    · have hlater : ¬ Apart pieces := by
        intro hpieces
        apply h
        intro before text body after heq
        cases before with
        | nil => exact hhere ⟨text, body, after, heq⟩
        | cons piece' before => exact hpieces before text body after (List.cons.inj heq).2
      obtain ⟨before, text, body, after, rfl, hapart⟩ := ih hlater
      refine ⟨piece :: before, text, body, after, rfl, fun before' text' body' after' heq => ?_⟩
      cases before' with
      | cons piece' before' => exact hapart before' text' body' after' (List.cons.inj heq).2
      | nil =>
        -- the first two pieces would be a number and a comment, here already
        obtain ⟨hnumber, hcomment⟩ := List.cons.inj heq
        cases before with
        | nil => exact absurd hcomment (by simp)
        | cons piece'' before =>
          have hbody := (List.cons.inj hcomment).1
          exact hhere ⟨text', body', before ++ .number text :: .lineComment body :: after, by
            rw [hnumber, hbody]; rfl⟩

theorem turn_meeting {text body : List Char} {rest : List Char}
    (h : Lexes classes rest (.number text :: .lineComment body :: pieces)) :
    ∃ c cs, rest = c :: cs ∧ (turn classes c cs).kind = some .number ∧
      text.length + 2 ≤ (turn classes c cs).text.length := by
  cases h with
  | @number c run rest _ hspace hword hc htext hdashes hrest h =>
    refine ⟨c, run ++ rest, rfl, ?_⟩
    have hdash : ∃ rest', rest = '-' :: '-' :: rest' := by
      cases h with
      | line => exact ⟨_, rfl⟩
    obtain ⟨rest', rfl⟩ := hdash
    have hpart : classes.isNumberPart '-' = true := by simp [CharClasses.isNumberPart]
    have htake : (run ++ '-' :: '-' :: rest').takeWhile classes.isNumberPart =
        run ++ '-' :: '-' :: rest'.takeWhile classes.isNumberPart := by
      rw [List.takeWhile_append_of_pos htext, List.takeWhile_cons_of_pos hpart,
        List.takeWhile_cons_of_pos hpart]
    rw [turn_letter hspace (.inr hc), if_neg (by rw [hword]; exact Bool.false_ne_true), htake]
    refine ⟨rfl, ?_⟩
    simp only [List.length_cons, List.length_append]
    omega

/-- **Lexing**: the scan is exact iff no number of the text is directly followed by a line
comment. -/
theorem scan_exact_iff (classes : CharClasses) (text : List Char) (pieces : List Piece)
    (h : Lexes classes text pieces) : Exact text pieces (scan classes text) ↔ Apart pieces := by
  constructor
  · intro hexact
    by_contra hmeet
    obtain ⟨before, number, body, after, rfl, hapart⟩ := exists_first_meeting hmeet
    obtain ⟨rest, hrest, hscan⟩ := h.scan_run {} hapart
    obtain ⟨c, cs, rfl, hkind, hlength⟩ := turn_meeting hrest
    have hoffset : (({} : Position).read (textOf before)).offset = (textOf before).length := by
      rw [Position.read_offset]
      exact Nat.zero_add _
    -- the token begins with the number and ends in the comment
    have hmem : tokenOf classes (({} : Position).read (textOf before)) .number
      (turn classes c cs).text ∈
        (scan classes text).tokens := by
      rw [scan, hscan, mem_recordAll, scanFrom_cons, Turn.record, hkind]
      exact .inr (List.mem_cons_self ..)
    have hne := h.text_ne_nil (.number number) (by simp)
    have hpos : 0 < number.length := List.length_pos_iff.mpr hne
    have hcomment := hexact.comments _ hmem (before ++ [.number number]) (.lineComment body) after
      (by simp) rfl
    rw [textOf_append, List.length_append] at hcomment
    change (({} : Position).read (textOf before)).offset + (turn classes c cs).text.length ≤
      (textOf before).length + (textOf [.number number]).length ∨
        (textOf before).length + (textOf [.number number]).length + _ ≤
          (({} : Position).read (textOf before)).offset at hcomment
    have hnumber : (textOf [.number number]).length = number.length := by simp [textOf, Piece.text]
    rw [hoffset, hnumber] at hcomment
    omega
  · intro hapart
    have happend : Apart (pieces ++ ([] : List Piece).take 1) := by
      rwa [List.take_nil, List.append_nil]
    rw [← List.append_nil pieces] at h
    obtain ⟨rest, hrest, hscan⟩ := h.scan_run {} happend
    cases hrest
    have hall : scan classes text = recordAll classes {} pieces {} := hscan
    rw [hall]
    rw [List.append_nil] at h
    exact h.exact_recordAll

/-- The methods of `str` on ASCII texts. -/
def CharClasses.ascii : CharClasses where
  isspace := Text.isSpace
  isalpha := Char.isAlpha
  isalnum := Char.isAlphanum
  isdigit := Char.isDigit
  upper := Text.upper
  delimiters := by
    intro c hc
    simp only [List.mem_cons, List.not_mem_nil, or_false] at hc
    obtain rfl | rfl | rfl | rfl := hc
    all_goals exact ⟨rfl, rfl, rfl, rfl⟩

theorem lexes_number_comment :
    Lexes CharClasses.ascii ['1', '-', '-', 'n'] [.number ['1'], .lineComment ['n']] := by
  have hcomment : Lexes CharClasses.ascii ['-', '-', 'n'] [.lineComment ['n']] :=
    @Lexes.line _ ['n'] [] [] (by decide) nofun .nil
  refine @Lexes.number _ '1' [] ['-', '-', 'n'] _ (by decide) (by decide) (by decide) nofun ?_
    (.inr ⟨_, rfl⟩) hcomment
  intro u v heq
  have hlength := congrArg List.length heq
  simp at hlength
  omega

/-- The pieces of `'a--b'/*c*/1 --n`. -/
def spacedPieces : List Piece :=
  [.literal '\'' ['a', '-', '-', 'b'], .blockComment ['c', '*', '/'], .number ['1'], .space ' ',
    .lineComment ['n']]

theorem lexes_spaced : Lexes CharClasses.ascii (textOf spacedPieces) spacedPieces := by
  have hline : Lexes CharClasses.ascii ['-', '-', 'n'] [.lineComment ['n']] :=
    @Lexes.line _ ['n'] [] [] (by decide) (by simp) .nil
  have hnumber : Lexes CharClasses.ascii ['1', ' ', '-', '-', 'n']
      [.number ['1'], .space ' ', .lineComment ['n']] := by
    refine @Lexes.number _ '1' [] _ _ (by decide) (by decide) (by decide) (by simp) ?_
      (.inl (by simp; decide)) (.space (by decide) hline)
    intro u v heq
    have hlength := congrArg List.length heq
    simp at hlength
    omega
  have hbody : Closes 1 ['c', '*', '/'] := .other (by decide) (by decide) (.closes .done)
  have hdoubled : Doubled '\'' ['a', '-', '-', 'b'] :=
    .other (by decide) (.other (by decide) (.other (by decide) (.other (by decide) .nil)))
  exact @Lexes.literal _ '\'' _ _ _ (.inl rfl) hdoubled (by decide) (.block hbody hnumber)

/-- Dashes in a literal begin no comment, and a blank keeps the number apart from the one at the
end. -/
theorem scan_exact_spaced :
    Exact (textOf spacedPieces) spacedPieces (scan CharClasses.ascii (textOf spacedPieces)) := by
  refine (scan_exact_iff _ _ _ lexes_spaced).mpr fun before text body after heq => ?_
  have hlength : before.length + 2 ≤ spacedPieces.length := by
    rw [heq]
    simp
  rcases before with _ | ⟨_, _ | ⟨_, _ | ⟨_, _ | ⟨_, before⟩⟩⟩⟩
  any_goals cases heq
  simp [spacedPieces] at hlength

/-- In `1--n` the number `1--` overlaps the comment, and `n` is a word. -/
theorem scan_not_exact :
    ¬(∀ classes text pieces, Lexes classes text pieces → Exact text pieces (scan classes text)) ∧
      (scan CharClasses.ascii ['1', '-', '-', 'n']).tokens.map Token.value =
      [['1', '-', '-'], ['n']] := by
  refine ⟨fun h => ?_, by decide +kernel⟩
  have hexact := h _ _ _ lexes_number_comment
  have hmem : tokenOf CharClasses.ascii {} .number ['1', '-', '-'] ∈
      (scan CharClasses.ascii ['1', '-', '-', 'n']).tokens := by decide +kernel
  have hcomment := hexact.comments _ hmem [.number ['1']] (.lineComment ['n']) [] rfl rfl
  exact absurd hcomment (by decide +kernel)

end AtlasDb.Dialects.Clp
