import AtlasDb.Catalog.Lineage

/-!
# View definitions

The queries a view is made of: SELECT blocks over joins, comma lists and derived tables, with
subqueries anywhere in their expressions and common table expressions in front. A query is written
as a sequence of tokens (`queryTokens`) and those as a text, with blanks, operators, comments and
string literals anywhere between them (`Written`).

`queryMentions` lists where relations are named, each with the common table expressions in scope;
what the query reads are the names that are none of these.
-/

namespace AtlasDb.Catalog

open Core

/-! ## Names -/

/-- A token that is no mark and no keyword. -/
def Plain (token : Chars) : Prop := token ∉ marks ∧ Text.upper token ∉ keywords

instance (token : Chars) : Decidable (Plain token) := inferInstanceAs (Decidable (_ ∧ _))

abbrev Word : Type := { token : Chars // Plain token }

/-- An identifier without quotes. -/
structure Identifier where
  token : Chars
  nonempty : token ≠ []
  chars : ∀ c ∈ token, isIdentifierChar c = true ∧ c ≠ '.'
  notKeyword : Text.upper token ∉ keywords

/-- `"` doubled. -/
def escapeQuotes (quote : Char) (content : Chars) : Chars :=
  content.flatMap fun c => if c = quote then [quote, quote] else [c]

/-- A schema or an object. -/
inductive Part where
  | unquoted (identifier : Identifier)
  | quoted (content : Chars)

namespace Part

def token : Part → Chars
  | unquoted identifier => identifier.token
  | quoted content => '"' :: escapeQuotes '"' content ++ ['"']

/-- The name in the catalog, whose references are compared in upper case. -/
def content : Part → Chars
  | unquoted identifier => Text.upper identifier.token
  | quoted content => Text.upper content

end Part

/-- Where the dot of a name stands: between two identifiers without a blank or a quote it is part of
one token, else it may hang on one of them or stand alone. -/
inductive Dot where
  | joined
  | withSchema
  | withObject
  | alone

inductive Name where
  | one (object : Part)
  | two (schema object : Part) (dot : Dot)

namespace Name

/-- The first token. -/
def head : Name → Chars
  | one object => object.token
  | two schema object .joined => schema.token ++ '.' :: object.token
  | two schema _ .withSchema => schema.token ++ ['.']
  | two schema _ .withObject => schema.token
  | two schema _ .alone => schema.token

/-- The other tokens. -/
def rest : Name → List Chars
  | one _ => []
  | two _ _ .joined => []
  | two _ object .withSchema => [object.token]
  | two _ object .withObject => ['.' :: object.token]
  | two _ object .alone => [['.'], object.token]

/-- The relation of the catalog the name stands for. -/
def ref (defaultSchema : Chars) : Name → Chars
  | one object => Text.upper defaultSchema ++ '.' :: object.content
  | two schema object _ => schema.content ++ '.' :: object.content

/-- The name stands for a common table expression. -/
def isCte (scope : List Chars) : Name → Bool
  | one object => object.content ∈ scope
  | two _ _ _ => false

end Name

/-! ## Queries -/

mutual

inductive Query where
  | mk (ctes : List Cte) (select : Select)

inductive Cte where
  | mk (name : Part) (columns : List Word) (query : Query)

inductive Select where
  | block (items : List Item) (first : TableRef) (others : List TableRef) (tail : List Item)
  | union (left : Select) (operator : List Word) (right : Select)

/-- The condition of a join includes its ON or USING. -/
inductive TableRef where
  | relation (name : Name) (correlation : List Word)
  | derived (query : Query) (correlation : List Word)
  | join (left : TableRef) (kind : List Word) (right : TableRef) (condition : List Item)

/-- A piece of a select list or a condition. `operand` is an operand behind FROM, as in
`EXTRACT(YEAR FROM HIRED)`. -/
inductive Item where
  | word (word : Word)
  | comma
  | group (items : List Item)
  | subquery (query : Query)
  | operand (word : Word)

end

def wordTokens (words : List Word) : List Chars := words.map Subtype.val

/-- A list of columns, if there is one. -/
def columnTokens : List Word → List Chars
  | [] => []
  | first :: others => ['('] :: first.val :: (others.flatMap fun w => [[','], w.val]) ++ [[')']]

mutual

def queryTokens : Query → List Chars
  | .mk ctes select => ctesTokens "WITH".toList ctes ++ selectTokens select

/-- The common table expressions, with what stands before the first. -/
def ctesTokens (before : Chars) : List Cte → List Chars
  | [] => []
  | .mk name columns query :: ctes =>
    before :: name.token :: columnTokens columns ++
      ("AS".toList :: ['('] :: (queryTokens query ++ [')'] :: ctesTokens [','] ctes))

def selectTokens : Select → List Chars
  | .block items first others tail =>
    "SELECT".toList :: (itemsTokens items ++
      ("FROM".toList :: (refTokens first ++ (otherTokens others ++ itemsTokens tail))))
  | .union left operator right => selectTokens left ++ (wordTokens operator ++ selectTokens right)

def refTokens : TableRef → List Chars
  | .relation name correlation => name.head :: (name.rest ++ wordTokens correlation)
  | .derived query correlation => ['('] :: (queryTokens query ++ ([')'] :: wordTokens correlation))
  | .join left kind right condition =>
    refTokens left ++ (wordTokens kind ++
      ("JOIN".toList :: (refTokens right ++ itemsTokens condition)))

def otherTokens : List TableRef → List Chars
  | [] => []
  | ref :: refs => [','] :: (refTokens ref ++ otherTokens refs)

def itemTokens : Item → List Chars
  | .word word => [word.val]
  | .comma => [[',']]
  | .group items => ['('] :: (itemsTokens items ++ [[')']])
  | .subquery query => ['('] :: (queryTokens query ++ [[')']])
  | .operand word => ["FROM".toList, word.val]

def itemsTokens : List Item → List Chars
  | [] => []
  | item :: items => itemTokens item ++ itemsTokens items

end

/-! ## What a query names -/

/-- A name in a FROM clause. `leading` says that FROM or JOIN stands right before it. -/
structure Occurrence where
  name : Name
  leading : Bool
  scope : List Chars

inductive Mention where
  | relation (occurrence : Occurrence)
  | operand (word : Word)

def cteScope (scope : List Chars) : List Cte → List Chars
  | [] => scope
  | .mk name _ _ :: ctes => cteScope (name.content :: scope) ctes

mutual

/-- The names in a query. A common table expression is in scope from its own definition on. -/
def queryMentions (scope : List Chars) : Query → List Mention
  | .mk ctes select => ctesMentions scope ctes ++ selectMentions (cteScope scope ctes) select

def ctesMentions (scope : List Chars) : List Cte → List Mention
  | [] => []
  | .mk name _ query :: ctes =>
    queryMentions (name.content :: scope) query ++ ctesMentions (name.content :: scope) ctes

def selectMentions (scope : List Chars) : Select → List Mention
  | .block items first others tail =>
    itemsMentions scope items ++ (refMentions scope true first ++
      (otherMentions scope others ++ itemsMentions scope tail))
  | .union left _ right => selectMentions scope left ++ selectMentions scope right

def refMentions (scope : List Chars) (leading : Bool) : TableRef → List Mention
  | .relation name _ => [.relation ⟨name, leading, scope⟩]
  | .derived query _ => queryMentions scope query
  | .join left _ right condition =>
    refMentions scope leading left ++ (refMentions scope true right ++
      itemsMentions scope condition)

def otherMentions (scope : List Chars) : List TableRef → List Mention
  | [] => []
  | ref :: refs => refMentions scope false ref ++ otherMentions scope refs

def itemMentions (scope : List Chars) : Item → List Mention
  | .word _ => []
  | .comma => []
  | .group items => itemsMentions scope items
  | .subquery query => queryMentions scope query
  | .operand word => [.operand word]

def itemsMentions (scope : List Chars) : List Item → List Mention
  | [] => []
  | item :: items => itemMentions scope item ++ itemsMentions scope items

end

/-- The relation a mention reads. -/
def Mention.read? (defaultSchema : Chars) : Mention → Option Chars
  | .relation occ => if occ.name.isCte occ.scope then none else some (occ.name.ref defaultSchema)
  | .operand _ => none

/-- The catalog relations a query reads. -/
def reads (defaultSchema : Chars) (q : Query) : List Chars :=
  (queryMentions [] q).filterMap (Mention.read? defaultSchema)

/-! ## Texts -/

/-- A character between tokens: a blank or an operator. -/
def isSeparator (c : Char) : Bool :=
  !isIdentifierChar c && !isMark c && c ≠ '\'' && c ≠ '"'

/-- The tokens can be written as the text. -/
inductive Written : List Chars → Chars → Prop where
  | nil : Written [] []
  | separator {tokens : List Chars} {text : Chars} (c : Char) (hc : isSeparator c = true)
      (hline : c = '-' → text.head? ≠ some '-') (hblock : c = '/' → text.head? ≠ some '*')
      (h : Written tokens text) : Written tokens (c :: text)
  | lineComment {tokens : List Chars} {text : Chars} (comment : Chars)
      (hcomment : ∀ c ∈ comment, c ≠ '\r' ∧ c ≠ '\n')
      (hend : ∀ c ∈ text.head?, c = '\r' ∨ c = '\n') (h : Written tokens text) :
      Written tokens ('-' :: '-' :: (comment ++ text))
  | blockComment {tokens : List Chars} {text : Chars} (comment : Chars)
      (hcomment : ∀ before after, comment ≠ before ++ '*' :: '/' :: after)
      (h : Written tokens text) :
      Written tokens ('/' :: '*' :: (comment ++ '*' :: '/' :: text))
  | literal {tokens : List Chars} {text : Chars} (content : Chars)
      (hend : text.head? ≠ some '\'') (h : Written tokens text) :
      Written tokens ('\'' :: (escapeQuotes '\'' content ++ '\'' :: text))
  | word {tokens : List Chars} {text : Chars} (token : Chars) (hne : token ≠ [])
      (hchars : ∀ c ∈ token, isIdentifierChar c = true)
      (hend : ∀ c ∈ text.head?, isIdentifierChar c = false) (h : Written tokens text) :
      Written (token :: tokens) (token ++ text)
  | quoted {tokens : List Chars} {text : Chars} (content : Chars) (hend : text.head? ≠ some '"')
      (h : Written tokens text) :
      Written ((Part.quoted content).token :: tokens) ((Part.quoted content).token ++ text)
  | mark {tokens : List Chars} {text : Chars} (c : Char) (hc : isMark c = true)
      (h : Written tokens text) : Written ([c] :: tokens) (c :: text)

/-! ## The tokens of a text -/

variable {token : Chars}

section Tokens

variable {fuel : Nat} {current text : Chars}

theorem tokenizeLoop_other {c : Char} (hliteral : c ≠ '\'') (hquote : c ≠ '"')
    (hline : c = '-' → text.head? ≠ some '-') (hblock : c = '/' → text.head? ≠ some '*') :
    tokenizeLoop (fuel + 1) current (c :: text) =
      if isIdentifierChar c then tokenizeLoop fuel (current ++ [c]) text
      else flush current ++ ((if isMark c then [[c]] else []) ++ tokenizeLoop fuel [] text) := by
  rw [tokenizeLoop.eq_7]
  · intro heq
    exact hliteral heq
  · intro heq
    exact hquote heq
  · intro cs heq htext
    exact hline heq (by rw [htext]; rfl)
  · intro cs heq htext
    exact hblock heq (by rw [htext]; rfl)

theorem isIdentifierChar_ne {c d : Char} (hc : isIdentifierChar c = true)
    (hd : isIdentifierChar d = false) : c ≠ d := by
  rintro rfl
  rw [hc] at hd
  cases hd

theorem tokenizeLoop_identifier {c : Char} (hc : isIdentifierChar c = true) :
    tokenizeLoop (fuel + 1) current (c :: text) = tokenizeLoop fuel (current ++ [c]) text := by
  rw [tokenizeLoop_other (isIdentifierChar_ne hc (by decide)) (isIdentifierChar_ne hc (by decide))
    (fun heq => absurd heq (isIdentifierChar_ne hc (by decide)))
    (fun heq => absurd heq (isIdentifierChar_ne hc (by decide))), if_pos hc]

theorem cons_cases (c : Char) (cs : Chars) :
    c = '\'' ∨ c = '"' ∨ (∃ rest, c = '-' ∧ cs = '-' :: rest) ∨
    (∃ rest, c = '/' ∧ cs = '*' :: rest) ∨
      (c ≠ '\'' ∧ c ≠ '"' ∧ (c = '-' → cs.head? ≠ some '-') ∧ (c = '/' → cs.head? ≠ some '*')) := by
  cases cs with
  | nil => by_cases hliteral : c = '\'' <;> by_cases hquote : c = '"' <;> simp [hliteral, hquote]
  | cons d rest =>
    by_cases hliteral : c = '\''
    · exact .inl hliteral
    · by_cases hquote : c = '"'
      · exact .inr (.inl hquote)
      · by_cases hline : c = '-' ∧ d = '-'
        · exact .inr (.inr (.inl ⟨rest, hline.1, by rw [hline.2]⟩))
        · by_cases hblock : c = '/' ∧ d = '*'
          · exact .inr (.inr (.inr (.inl ⟨rest, hblock.1, by rw [hblock.2]⟩)))
          · refine .inr (.inr (.inr (.inr ⟨hliteral, hquote, fun h heq => ?_, fun h heq => ?_⟩)))
            · exact hline ⟨h, Option.some.inj heq⟩
            · exact hblock ⟨h, Option.some.inj heq⟩

theorem tokenizeLoop_flush (hend : ∀ c ∈ text.head?, isIdentifierChar c = false) :
    tokenizeLoop fuel current text = flush current ++ tokenizeLoop fuel [] text := by
  have hnil : flush [] = [] := rfl
  cases fuel with
  | zero => simp [tokenizeLoop, hnil]
  | succ fuel =>
    cases text with
    | nil => simp [tokenizeLoop, hnil]
    | cons c cs =>
      have hc := hend c rfl
      rcases cons_cases c cs with rfl | rfl | ⟨rest, rfl, rfl⟩ | ⟨rest, rfl, rfl⟩ |
        ⟨hliteral, hquote, hline, hblock⟩
      · simp [tokenizeLoop, hnil]
      · simp [tokenizeLoop, hnil]
      · simp [tokenizeLoop, hnil]
      · simp [tokenizeLoop, hnil]
      · rw [tokenizeLoop_other hliteral hquote hline hblock,
          tokenizeLoop_other hliteral hquote hline hblock, hc, hnil]
        rfl

theorem tokenizeLoop_word (hchars : ∀ c ∈ token, isIdentifierChar c = true) :
    tokenizeLoop (token.length + fuel) current (token ++ text) =
      tokenizeLoop fuel (current ++ token) text := by
  induction token generalizing current with
  | nil => simp
  | cons c cs ih =>
    rw [List.cons_append, List.length_cons, Nat.add_right_comm,
      tokenizeLoop_identifier (hchars c List.mem_cons_self),
      ih fun d hd => hchars d (List.mem_cons_of_mem _ hd), List.append_assoc]
    rfl

theorem skipLine_append {comment text : Chars} (hcomment : ∀ c ∈ comment, c ≠ '\r' ∧ c ≠ '\n')
    (hend : ∀ c ∈ text.head?, c = '\r' ∨ c = '\n') : skipLine (comment ++ text) = text := by
  unfold skipLine
  induction comment with
  | nil =>
    cases text with
    | nil => rfl
    | cons c cs =>
      rcases hend c rfl with rfl | rfl <;> rfl
  | cons c cs ih =>
    obtain ⟨hr, hn⟩ := hcomment c List.mem_cons_self
    rw [List.cons_append, List.dropWhile_cons_of_pos (by simp [hr, hn])]
    exact ih fun d hd => hcomment d (List.mem_cons_of_mem _ hd)

theorem skipBlock_append {comment text : Chars}
    (hcomment : ∀ before after, comment ≠ before ++ '*' :: '/' :: after) :
    skipBlock (comment ++ '*' :: '/' :: text) = text := by
  induction comment with
  | nil => rfl
  | cons c cs ih =>
    have hrest : skipBlock (cs ++ '*' :: '/' :: text) = text :=
      ih fun before after heq => hcomment (c :: before) after (by rw [heq]; rfl)
    rw [List.cons_append, skipBlock.eq_3]
    · exact hrest
    · intro rest hc hrest'
      cases cs with
      | nil => cases hrest'
      | cons d ds =>
        cases hrest'
        exact hcomment [] ds (by rw [hc]; rfl)

theorem skipLiteral_append {content text : Chars} (hend : text.head? ≠ some '\'') :
    skipLiteral (escapeQuotes '\'' content ++ '\'' :: text) = text := by
  induction content with
  | nil =>
    cases text with
    | nil => rfl
    | cons c cs =>
      show skipLiteral ('\'' :: c :: cs) = _
      rw [skipLiteral.eq_3]
      intro rest heq
      cases heq
      exact hend rfl
  | cons c cs ih =>
    by_cases hc : c = '\''
    · subst hc
      exact ih
    · have hescape : escapeQuotes '\'' (c :: cs) = c :: escapeQuotes '\'' cs := by
        simp [escapeQuotes, hc]
      rw [hescape, List.cons_append, skipLiteral.eq_4]
      · exact ih
      · exact fun _ heq => absurd heq hc
      · exact fun heq => absurd heq hc

theorem readQuoted_append {content text : Chars} (hend : text.head? ≠ some '"') :
    readQuoted (escapeQuotes '"' content ++ '"' :: text) =
    (escapeQuotes '"' content ++ ['"'], text) := by
  induction content with
  | nil =>
    cases text with
    | nil => rfl
    | cons c cs =>
      show readQuoted ('"' :: c :: cs) = _
      rw [readQuoted.eq_3]
      · rfl
      · intro rest heq
        cases heq
        exact hend rfl
  | cons c cs ih =>
    by_cases hc : c = '"'
    · subst hc
      have hescape : escapeQuotes '"' ('"' :: cs) = '"' :: '"' :: escapeQuotes '"' cs := rfl
      rw [hescape, List.cons_append, List.cons_append, readQuoted.eq_2, ih]
      rfl
    · have hescape : escapeQuotes '"' (c :: cs) = c :: escapeQuotes '"' cs := by
        simp [escapeQuotes, hc]
      rw [hescape, List.cons_append, readQuoted.eq_4]
      · rw [ih]
        rfl
      · exact fun _ heq => absurd heq hc
      · exact fun heq => absurd heq hc

/-- A written query is cut into its tokens. -/
theorem tokenizeLoop_written {tokens : List Chars} {text : Chars} (h : Written tokens text) :
    ∀ {fuel : Nat}, text.length ≤ fuel → tokenizeLoop fuel [] text = tokens := by
  induction h with
  | nil =>
    intro fuel _
    cases fuel <;> rfl
  | separator c hc hline hblock _ ih =>
    intro fuel hfuel
    obtain ⟨fuel, rfl⟩ :=
      Nat.exists_eq_add_of_le' (Nat.le_trans (Nat.succ_le_succ (Nat.zero_le _)) hfuel)
    simp only [isSeparator, Bool.and_eq_true, Bool.not_eq_true', decide_eq_true_eq] at hc
    obtain ⟨⟨⟨hidentifier, hmark⟩, hliteral⟩, hquote⟩ := hc
    rw [tokenizeLoop_other hliteral hquote hline hblock, hidentifier, hmark]
    exact ih (Nat.le_of_succ_le_succ hfuel)
  | @lineComment tokens text comment hcomment hend _ ih =>
    intro fuel hfuel
    simp only [List.length_cons, List.length_append] at hfuel
    obtain ⟨fuel, rfl⟩ : ∃ n, fuel = n + 1 := ⟨fuel - 1, by omega⟩
    show flush [] ++ tokenizeLoop fuel [] (skipLine (comment ++ text)) = tokens
    rw [skipLine_append hcomment hend]
    exact ih (by omega)
  | @blockComment tokens text comment hcomment _ ih =>
    intro fuel hfuel
    simp only [List.length_cons, List.length_append] at hfuel
    obtain ⟨fuel, rfl⟩ : ∃ n, fuel = n + 1 := ⟨fuel - 1, by omega⟩
    show flush [] ++ tokenizeLoop fuel [] (skipBlock (comment ++ '*' :: '/' :: text)) = tokens
    rw [skipBlock_append hcomment]
    exact ih (by omega)
  | @literal tokens text content hend _ ih =>
    intro fuel hfuel
    simp only [List.length_cons, List.length_append] at hfuel
    obtain ⟨fuel, rfl⟩ : ∃ n, fuel = n + 1 := ⟨fuel - 1, by omega⟩
    show flush [] ++
      tokenizeLoop fuel [] (skipLiteral (escapeQuotes '\'' content ++ '\'' :: text)) = tokens
    rw [skipLiteral_append hend]
    exact ih (by omega)
  | @word tokens text token hne hchars hend _ ih =>
    intro fuel hfuel
    rw [List.length_append] at hfuel
    obtain ⟨fuel, rfl⟩ : ∃ n, fuel = token.length + n := ⟨fuel - token.length, by omega⟩
    have hflush : flush token = [token] := if_neg hne
    rw [tokenizeLoop_word hchars, List.nil_append, tokenizeLoop_flush hend, hflush,
      ih (by omega)]
    rfl
  | @quoted tokens text content hend _ ih =>
    intro fuel hfuel
    have hsplit : (Part.quoted content).token ++ text =
        '"' :: (escapeQuotes '"' content ++ '"' :: text) := by
      simp [Part.token]
    rw [hsplit] at hfuel ⊢
    simp only [List.length_cons, List.length_append] at hfuel
    obtain ⟨fuel, rfl⟩ : ∃ n, fuel = n + 1 := ⟨fuel - 1, by omega⟩
    rw [tokenizeLoop, readQuoted_append hend, ih (by omega)]
    rfl
  | @mark tokens text c hc _ ih =>
    intro fuel hfuel
    rw [List.length_cons] at hfuel
    obtain ⟨fuel, rfl⟩ : ∃ n, fuel = n + 1 := ⟨fuel - 1, by omega⟩
    have hmark : c = '(' ∨ c = ')' ∨ c = ',' := by
      simpa [isMark, or_assoc] using hc
    rcases hmark with rfl | rfl | rfl
    all_goals
      rw [tokenizeLoop_other (by decide) (by decide) (fun h => absurd h (by decide))
        (fun h => absurd h (by decide)), ih (by omega)]
      rfl

/-- **The tokenizer is right** about any text the tokens are written as. -/
theorem tokenize_written {tokens : List Chars} {text : Chars} (h : Written tokens text) :
    tokenize text = tokens :=
  tokenizeLoop_written h (Nat.le_refl _)

end Tokens

/-! ## The tokens behind keywords -/

theorem plain_of_mem {c : Char} (hmem : c ∈ token)
    (hmarks : ∀ m ∈ marks, c ∉ m) (hkeywords : ∀ k ∈ keywords, c.toUpper ∉ k) : Plain token := by
  refine ⟨fun hmark => hmarks token hmark hmem, fun hkeyword => ?_⟩
  exact hkeywords _ hkeyword (List.mem_map.2 ⟨c, hmem, rfl⟩)

theorem plain_of_dot (h : '.' ∈ token) : Plain token :=
  plain_of_mem h (by decide) (by decide)

theorem Part.plain (part : Part) : Plain part.token := by
  cases part with
  | unquoted identifier =>
    refine ⟨fun hmark => ?_, identifier.notKeyword⟩
    have hnone : ∀ m ∈ marks, ∀ c ∈ m, isIdentifierChar c = false := by
      have hall : ∀ m ∈ marks, m.all (fun c => !isIdentifierChar c) = true := by decide
      intro m hm c hc
      simpa using List.all_eq_true.1 (hall m hm) c hc
    obtain ⟨c, hc⟩ := List.exists_mem_of_ne_nil identifier.token identifier.nonempty
    have hfalse := hnone identifier.token hmark c hc
    rw [(identifier.chars c hc).1] at hfalse
    cases hfalse
  | quoted content =>
    exact plain_of_mem (c := '"') List.mem_cons_self (by decide) (by decide)

theorem Name.plain_head (name : Name) : Plain name.head := by
  cases name with
  | one object => exact object.plain
  | two schema object dot =>
    cases dot with
    | joined => exact plain_of_dot (List.mem_append_right _ List.mem_cons_self)
    | withSchema => exact plain_of_dot (List.mem_append_right _ List.mem_cons_self)
    | withObject => exact schema.plain
    | alone => exact schema.plain

theorem Name.plain_rest (name : Name) : ∀ token ∈ name.rest, Plain token := by
  cases name with
  | one object => exact fun _ h => nomatch h
  | two schema object dot =>
    cases dot with
    | joined => exact fun _ h => nomatch h
    | withSchema =>
      intro token h
      rw [List.mem_singleton.1 h]
      exact object.plain
    | withObject =>
      intro token h
      rw [List.mem_singleton.1 h]
      exact plain_of_dot List.mem_cons_self
    | alone =>
      intro token h
      rcases List.mem_cons.1 h with rfl | h
      · exact plain_of_dot List.mem_cons_self
      · rw [List.mem_singleton.1 h]
        exact object.plain

theorem heads_keyword (h : Text.upper token ∈ keywords) (rest : List Chars) :
    heads (token :: rest) = (headAfter rest).toList ++ heads rest := by
  cases rest with
  | nil =>
    show (if Text.upper token ∈ keywords then (headAfter []).toList else []) = _
    rw [if_pos h]
    rfl
  | cons next rest => rw [heads, if_pos h]

theorem heads_other (h : Text.upper token ∉ keywords) (rest : List Chars) :
    heads (token :: rest) = heads rest := by
  cases rest with
  | nil =>
    show (if Text.upper token ∈ keywords then (headAfter []).toList else []) = _
    rw [if_neg h]
    rfl
  | cons next rest =>
    rw [heads, if_neg h]
    split
    · next hpair =>
        -- MERGE INTO and DELETE FROM: the keyword is looked at one turn early
        have hnext : Text.upper next ∈ keywords := by
          rcases hpair with ⟨-, hinto⟩ | ⟨-, hfrom⟩
          · rw [hinto]
            decide
          · rw [hfrom]
            decide
        rw [heads_keyword hnext]
    · rfl

theorem heads_mark {c : Char} (hc : isMark c = true) (rest : List Chars) :
    heads ([c] :: rest) = heads rest := by
  apply heads_other
  have hmark : c = '(' ∨ c = ')' ∨ c = ',' := by
    simpa [isMark, or_assoc] using hc
  rcases hmark with rfl | rfl | rfl <;> decide

theorem heads_plains {tokens : List Chars} (h : ∀ token ∈ tokens, Plain token) (rest : List Chars) :
    heads (tokens ++ rest) = heads rest := by
  induction tokens with
  | nil => rfl
  | cons token tokens ih =>
    rw [List.cons_append, heads_other (h token List.mem_cons_self).2]
    exact ih fun t ht => h t (List.mem_cons_of_mem _ ht)

theorem heads_words (words : List Word) (rest : List Chars) :
    heads (wordTokens words ++ rest) = heads rest := by
  apply heads_plains
  intro token h
  obtain ⟨word, -, rfl⟩ := List.mem_map.1 h
  exact word.property

theorem heads_columns (columns : List Word) (rest : List Chars) :
    heads (columnTokens columns ++ rest) = heads rest := by
  cases columns with
  | nil => rfl
  | cons first others =>
    have hothers : ∀ (ws : List Word) (r : List Chars),
        heads ((ws.flatMap fun w => [[','], w.val]) ++ r) = heads r := by
      intro ws r
      induction ws with
      | nil => rfl
      | cons w ws ih =>
        show heads ([','] :: w.val :: ((ws.flatMap fun w => [[','], w.val]) ++ r)) = heads r
        rw [heads_mark rfl, heads_other w.property.2, ih]
    show heads
      (['('] :: first.val :: (((others.flatMap fun w => [[','], w.val]) ++ [[')']]) ++ rest)) = _
    rw [heads_mark rfl, heads_other first.property.2, List.append_assoc, hothers]
    exact heads_mark rfl rest

theorem heads_keyword_plain {keyword token : Chars} (hkeyword : Text.upper keyword ∈ keywords)
    (htoken : Plain token) (rest : List Chars) :
    heads (keyword :: token :: rest) = token :: heads rest := by
  have hnot : token ≠ ['('] ∧ token ≠ [','] :=
    ⟨fun heq => htoken.1 (heq ▸ by decide), fun heq => htoken.1 (heq ▸ by decide)⟩
  rw [heads_keyword hkeyword, heads_other htoken.2, headAfter, if_neg hnot.1, if_neg hnot.2]
  rfl

/-- The token of a mention that is looked at. -/
def Mention.head : Mention → Option Chars
  | .relation occ => if occ.leading then some occ.name.head else none
  | .operand word => some word.val

def headsOf (mentions : List Mention) : List Chars := mentions.filterMap Mention.head

theorem headsOf_append (ms ns : List Mention) : headsOf (ms ++ ns) = headsOf ms ++ headsOf ns :=
  List.filterMap_append

/-! The tokens of a query bring the heads of its mentions, whatever follows. Behind a keyword the
first name of a table reference is one of them. -/

mutual

theorem query_heads (q : Query) (scope : List Chars) (rest : List Chars) :
    heads (queryTokens q ++ rest) = headsOf (queryMentions scope q) ++ heads rest := by
  cases q with
  | mk ctes select =>
    rw [queryTokens, queryMentions, List.append_assoc, headsOf_append,
      ctes_heads ctes scope (by decide), select_heads select, List.append_assoc]

theorem ctes_heads (ctes : List Cte) (scope : List Chars) {before : Chars}
    (hbefore : Text.upper before ∉ keywords) (rest : List Chars) :
    heads (ctesTokens before ctes ++ rest) = headsOf (ctesMentions scope ctes) ++ heads rest := by
  cases ctes with
  | nil => rfl
  | cons cte ctes =>
    obtain ⟨name, columns, query⟩ := cte
    rw [ctesTokens, ctesMentions, headsOf_append]
    simp only [List.cons_append, List.append_assoc]
    rw [heads_other hbefore, heads_other name.plain.2, heads_columns, heads_other (by decide),
      heads_mark rfl, query_heads query (name.content :: scope), heads_mark rfl,
      ctes_heads ctes (name.content :: scope) (by decide)]

theorem select_heads (select : Select) (scope : List Chars) (rest : List Chars) :
    heads (selectTokens select ++ rest) = headsOf (selectMentions scope select) ++ heads rest := by
  cases select with
  | block items first others tail =>
    rw [selectTokens, selectMentions]
    simp only [List.cons_append, List.append_assoc, headsOf_append]
    rw [heads_other (by decide), items_heads items scope, leading_heads first scope (by decide),
      other_heads others scope, items_heads tail scope]
  | union left operator right =>
    rw [selectTokens, selectMentions]
    simp only [List.append_assoc, headsOf_append]
    rw [select_heads left scope, heads_words, select_heads right scope]

theorem leading_heads (ref : TableRef) (scope : List Chars) {keyword : Chars}
    (hkeyword : Text.upper keyword ∈ keywords) (rest : List Chars) :
    heads (keyword :: (refTokens ref ++ rest)) = headsOf (refMentions scope true ref) ++
    heads rest := by
  cases ref with
  | relation name correlation =>
    rw [refTokens, List.cons_append, heads_keyword_plain hkeyword name.plain_head,
      List.append_assoc, heads_plains name.plain_rest, heads_words]
    rfl
  | derived query correlation =>
    rw [refTokens, refMentions]
    simp only [List.cons_append, List.append_assoc]
    rw [heads_keyword hkeyword, heads_mark rfl, query_heads query scope, heads_mark rfl,
      heads_words]
    rfl
  | join left kind right condition =>
    rw [refTokens, refMentions]
    simp only [List.append_assoc, List.cons_append, headsOf_append]
    rw [leading_heads left scope hkeyword, heads_words, leading_heads right scope (by decide),
      items_heads condition scope]

theorem later_heads (ref : TableRef) (scope : List Chars) (rest : List Chars) :
    heads (refTokens ref ++ rest) = headsOf (refMentions scope false ref) ++ heads rest := by
  cases ref with
  | relation name correlation =>
    rw [refTokens, List.cons_append, heads_other name.plain_head.2, List.append_assoc,
      heads_plains name.plain_rest, heads_words]
    rfl
  | derived query correlation =>
    rw [refTokens, refMentions]
    simp only [List.cons_append, List.append_assoc]
    rw [heads_mark rfl, query_heads query scope, heads_mark rfl, heads_words]
  | join left kind right condition =>
    rw [refTokens, refMentions]
    simp only [List.append_assoc, List.cons_append, headsOf_append]
    rw [later_heads left scope, heads_words, leading_heads right scope (by decide),
      items_heads condition scope]

theorem other_heads (refs : List TableRef) (scope : List Chars) (rest : List Chars) :
    heads (otherTokens refs ++ rest) = headsOf (otherMentions scope refs) ++ heads rest := by
  cases refs with
  | nil => rfl
  | cons ref refs =>
    rw [otherTokens, otherMentions]
    simp only [List.cons_append, List.append_assoc, headsOf_append]
    rw [heads_mark rfl, later_heads ref scope, other_heads refs scope]

theorem item_heads (item : Item) (scope : List Chars) (rest : List Chars) :
    heads (itemTokens item ++ rest) = headsOf (itemMentions scope item) ++ heads rest := by
  cases item with
  | word word =>
    rw [itemTokens]
    exact heads_other word.property.2 rest
  | comma =>
    rw [itemTokens]
    exact heads_mark rfl rest
  | group items =>
    rw [itemTokens, itemMentions]
    simp only [List.cons_append, List.append_assoc, List.nil_append]
    rw [heads_mark rfl, items_heads items scope, heads_mark rfl]
  | subquery query =>
    rw [itemTokens, itemMentions]
    simp only [List.cons_append, List.append_assoc, List.nil_append]
    rw [heads_mark rfl, query_heads query scope, heads_mark rfl]
  | operand word =>
    rw [itemTokens]
    exact heads_keyword_plain (by decide) word.property rest

theorem items_heads (items : List Item) (scope : List Chars) (rest : List Chars) :
    heads (itemsTokens items ++ rest) = headsOf (itemsMentions scope items) ++ heads rest := by
  cases items with
  | nil => rfl
  | cons item items =>
    rw [itemsTokens, itemsMentions, List.append_assoc, headsOf_append, item_heads item scope,
      items_heads items scope, List.append_assoc]

end

end AtlasDb.Catalog
