import AtlasDb.Composition.CallArguments
import AtlasDb.Parsing.Rescan

/-!
# Call statements

A `CALL` as it is written: white space and comments wherever they may stand, a name whose parts may
be delimited, and arguments made of literals, comments, parentheses and other characters. Which
routine it calls with which arguments is said here by the parts of the statement and not by its
text, and `split_exact` says for which statements the split of the text finds them.
-/

namespace AtlasDb.Composition

open Core Core.Text Parsing Marks

/-! ## Gaps -/

/-- A character of white space or a comment. -/
inductive GapPiece where
  | space (c : Char) (h : isSpace c = true)
  | line (body : List Char) (h : '\n' ∉ body)
  | block (body : List Char) (h : containsList ['*', '/'] body = false)

def GapPiece.text : GapPiece → List Char
  | space c _ => [c]
  | line body _ => '-' :: '-' :: (body ++ ['\n'])
  | block body _ => '/' :: '*' :: (body ++ ['*', '/'])

abbrev Gap : Type := List GapPiece

def gapText (gap : Gap) : List Char := gap.flatMap GapPiece.text

/-! ## Names -/

/-- A literal or a delimited name, with its quotes doubled inside. -/
def quoted (q : Char) (body : List Char) : List Char :=
  q :: (body.flatMap (fun c => if c = q then [q, q] else [c]) ++ [q])

inductive NamePart where
  | plain (chars : List Char) (hne : chars ≠ []) (h : ∀ c ∈ chars, isWordPart c = true)
  | delimited (body : List Char) (hne : body ≠ [])

namespace NamePart

def text : NamePart → List Char
  | plain chars _ _ => chars
  | delimited body _ => quoted '"' body

/-- The name without delimiters. -/
def name : NamePart → List Char
  | plain chars _ _ => chars
  | delimited body _ => body

def isPlain : NamePart → Bool
  | plain _ _ _ => true
  | delimited _ _ => false

end NamePart

/-- A further part of a name, with the gaps before and behind the dot. -/
structure QualifiedPart where
  before : Gap
  behind : Gap
  part : NamePart

def QualifiedPart.text (q : QualifiedPart) : List Char :=
  gapText q.before ++ '.' :: (gapText q.behind ++ q.part.text)

/-- The dot stands right between plain parts. -/
def QualifiedPart.isPlain (q : QualifiedPart) : Bool :=
  gapText q.before = [] && gapText q.behind = [] && q.part.isPlain

structure RoutineName where
  first : NamePart
  more : List QualifiedPart

namespace RoutineName

def text (n : RoutineName) : List Char := n.first.text ++ n.more.flatMap QualifiedPart.text

/-- The parts with dots between them. -/
def dotted (n : RoutineName) : List Char :=
  n.first.name ++ n.more.flatMap fun q => '.' :: q.part.name

/-- The name under which `infer` knows the routine. -/
def value (n : RoutineName) : List Char := upper n.dotted

def isPlain (n : RoutineName) : Bool := n.first.isPlain && n.more.all QualifiedPart.isPlain

end RoutineName

/-! ## Arguments -/

/-- A piece of an argument. `plain` is any character but a quote, a parenthesis or a comma. -/
inductive Item where
  | plain (c : Char) (h : isQuote c = false ∧ c ≠ '(' ∧ c ≠ ')' ∧ c ≠ ',')
  | literal (q : Char) (h : isQuote q = true) (body : List Char)
  | comment (piece : GapPiece)
  | opening
  | closing
  | comma

def Item.text : Item → List Char
  | plain c _ => [c]
  | literal q _ body => quoted q body
  | comment piece => piece.text
  | opening => ['(']
  | closing => [')']
  | comma => [',']

/-- The parentheses are balanced and commas stand inside them. -/
def wellNested : Nat → List Item → Bool
  | depth, [] => depth = 0
  | depth, .opening :: items => wellNested (depth + 1) items
  | 0, .closing :: _ => false
  | depth + 1, .closing :: items => wellNested depth items
  | 0, .comma :: _ => false
  | depth + 1, .comma :: items => wellNested (depth + 1) items
  | depth, .plain _ _ :: items => wellNested depth items
  | depth, .literal _ _ _ :: items => wellNested depth items
  | depth, .comment _ :: items => wellNested depth items

/-- No two characters begin a comment. -/
def opensNoComment : List Item → Bool
  | .plain c _ :: .plain d h :: items =>
    !(c = '-' && d = '-' || c = '/' && d = '*') && opensNoComment (.plain d h :: items)
  | _ :: items => opensNoComment items
  | [] => true

def itemsText (items : List Item) : List Char := items.flatMap Item.text

structure Argument where
  items : List Item
  hnested : wellNested 0 items = true
  hcomments : opensNoComment items = true
  hne : isBlank (itemsText items) = false

def Argument.text (a : Argument) : List Char := itemsText a.items

inductive ArgumentList where
  | empty (gap : Gap)
  | nonempty (first : Argument) (more : List Argument)

namespace ArgumentList

def text : ArgumentList → List Char
  | empty gap => gapText gap
  | nonempty first more => joinArguments first.text (more.map Argument.text)

def actuals : ArgumentList → List (List Char)
  | empty _ => []
  | nonempty first more => (first :: more).map fun a => strip a.text

/-- The split of the text between the parentheses gives the arguments. -/
def isReadable : ArgumentList → Bool
  | empty gap => isBlank (gapText gap)
  | nonempty first more => separates first.text (more.map Argument.text)

end ArgumentList

/-! ## Statements -/

/-- A `CALL` statement. `lastComment` is a line comment that the end of the text ends. -/
structure CallStatement where
  lead : Gap
  keyword : List Char
  hkeyword : upper keyword = ['C', 'A', 'L', 'L']
  separator : Gap
  name : RoutineName
  hseparator : separator = [] → name.first.isPlain = false
  list : Option (Gap × ArgumentList)
  trail : Gap
  semicolon : Bool
  final : Gap
  lastComment : Option (List Char)

namespace CallStatement

def ending (call : CallStatement) : List Char :=
  gapText call.trail ++ ((if call.semicolon then [';'] else []) ++
    (gapText call.final ++ (call.lastComment.map fun body => '-' :: '-' :: body).getD []))

/-- The text from the keyword to the parenthesis, or to the end. -/
def spelling (call : CallStatement) : List Char :=
  gapText call.separator ++ (call.name.text ++
    match call.list with
    | none => call.ending
    | some (gap, _) => gapText gap)

/-- The text behind the keyword. -/
def behind (call : CallStatement) : List Char :=
  match call.list with
  | none => call.spelling
  | some (_, list) => call.spelling ++ '(' :: (list.text ++ ')' :: call.ending)

def text (call : CallStatement) : List Char := gapText call.lead ++ (call.keyword ++ call.behind)

def actuals (call : CallStatement) : List (List Char) :=
  match call.list with
  | none => []
  | some (_, list) => list.actuals

/-! ### The statements that are split right -/

/-- Nothing but white space comes before the keyword, and a space comes after it. -/
def startsPlainly (call : CallStatement) : Bool :=
  isBlank (gapText call.lead) && call.behind.head? = some ' '

/-- Between the keyword and the parenthesis, or the end, there is white space around a plain
name. -/
def isNamedPlainly (call : CallStatement) : Bool :=
  call.name.isPlain && isBlank (gapText call.separator) &&
    match call.list with
    | none => isBlank call.ending
    | some (gap, _) => isBlank (gapText gap)

/-- The last closing parenthesis is that of the list, and the list can be read. -/
def isListReadable (call : CallStatement) : Bool :=
  match call.list with
  | none => true
  | some (_, list) => ')' ∉ call.ending && list.isReadable

/-- There is no list, but a parenthesis inside a comment or a delimited name cuts the text where the
name happens to be spelled, and up to the last closing one there is white space. -/
def IsNamedByAccident (call : CallStatement) : Prop :=
  call.list = none ∧ ∃ before after, call.spelling = before ++ '(' :: after ∧ '(' ∉ before ∧
    upper (strip before) = call.name.value ∧
    ∀ inside tail, after = inside ++ ')' :: tail → ')' ∉ tail → isBlank inside = true

/-- When the split is right. -/
def IsSplitRight (call : CallStatement) : Prop :=
  call.startsPlainly = true ∧
    (call.isNamedPlainly = true ∧ call.isListReadable = true ∨ call.IsNamedByAccident)

end CallStatement

/-! ## The keyword -/

theorem gap_blank_or_comment (gap : Gap) : isBlank (gapText gap) = true ∨
    ∃ blank c rest, gapText gap = blank ++ c :: rest ∧ isBlank blank = true ∧
    (c = '-' ∨ c = '/') := by
  induction gap with
  | nil => exact .inl rfl
  | cons piece gap ih =>
    cases piece with
    | space c hc =>
      rcases ih with ih | ⟨blank, d, rest, htext, hblank, hd⟩
      · exact .inl (Bool.and_eq_true_iff.mpr ⟨hc, ih⟩)
      · refine .inr ⟨c :: blank, d, rest, ?_, Bool.and_eq_true_iff.mpr ⟨hc, hblank⟩, hd⟩
        rw [gapText, List.flatMap_cons]
        exact congrArg (c :: ·) htext
    | line body h => exact .inr ⟨[], '-', _, rfl, rfl, .inl rfl⟩
    | block body h => exact .inr ⟨[], '/', _, rfl, rfl, .inr rfl⟩

variable {c : Char}

theorem toUpper_eq_space : c.toUpper = ' ' ↔ c = ' ' := by
  constructor
  · intro h
    rcases toUpper_letter c with hc | ⟨-, hc⟩
    · rw [← hc, h]
    · rw [h] at hc
      exact absurd hc (by decide)
  · rintro rfl
    rfl

theorem keyword_letters {keyword : List Char} (h : upper keyword = ['C', 'A', 'L', 'L']) :
    ∃ a b c d, keyword = [a, b, c, d] ∧ a.toUpper = 'C' ∧ b.toUpper = 'A' ∧ c.toUpper = 'L' ∧
      d.toUpper = 'L' := by
  simp only [upper, List.map_eq_cons_iff, List.map_eq_nil_iff] at h
  obtain ⟨a, _, rfl, ha, b, _, rfl, hb, c, _, rfl, hc, d, _, rfl, hd, rfl⟩ := h
  exact ⟨a, b, c, d, rfl, ha, hb, hc, hd⟩

theorem part_text_ends (part : NamePart) : (∃ c rest, part.text = c :: rest ∧ isSpace c = false) ∧
    ∃ front c, part.text = front ++ [c] ∧ isSpace c = false := by
  cases part with
  | plain chars hne h =>
    constructor
    · obtain ⟨c, rest, rfl⟩ := List.exists_cons_of_ne_nil hne
      exact ⟨c, rest, rfl, isSpace_of_wordPart (h c List.mem_cons_self)⟩
    · obtain ⟨front, c, rfl⟩ := (List.eq_nil_or_concat chars).resolve_left hne
      exact ⟨front, c, List.concat_eq_append, isSpace_of_wordPart (h c (by simp))⟩
  | delimited body hne =>
    exact ⟨⟨'"', _, rfl, rfl⟩, ⟨'"' :: _, '"', rfl, rfl⟩⟩

theorem name_text_ends (name : RoutineName) :
    (∃ c rest, name.text = c :: rest ∧ isSpace c = false) ∧
    ∃ front c, name.text = front ++ [c] ∧ isSpace c = false := by
  obtain ⟨⟨c, rest, hfirst, hc⟩, front, d, hlast, hd⟩ := part_text_ends name.first
  refine ⟨⟨c, rest ++ name.more.flatMap QualifiedPart.text, ?_, hc⟩, ?_⟩
  · rw [RoutineName.text, hfirst]
    rfl
  · rcases List.eq_nil_or_concat name.more with hmore | ⟨more, q, hmore⟩
    · exact ⟨front, d, by rw [RoutineName.text, hmore, hlast]; simp, hd⟩
    · obtain ⟨-, front, d, hlast, hd⟩ := part_text_ends q.part
      refine ⟨name.first.text ++ (more.flatMap QualifiedPart.text ++
        (gapText q.before ++ '.' :: (gapText q.behind ++ front))), d, ?_, hd⟩
      rw [RoutineName.text, hmore]
      simp [QualifiedPart.text, hlast]

theorem behind_mark (call : CallStatement) :
    ∃ front c rest, call.behind = front ++ c :: rest ∧ isSpace c = false := by
  obtain ⟨⟨c, rest, htext, hc⟩, -⟩ := name_text_ends call.name
  unfold CallStatement.behind CallStatement.spelling
  cases call.list with
  | none => exact ⟨gapText call.separator, c, _, by rw [htext]; rfl, hc⟩
  | some pair =>
    refine ⟨gapText call.separator, c, ?_, ?_, hc⟩
    · exact rest ++ (gapText pair.1 ++ '(' :: (pair.2.text ++ ')' :: call.ending))
    · simp [htext]

/-- How the text of a call is split. -/
theorem splitCallArguments_text (call : CallStatement) : splitCallArguments call.text =
    if call.startsPlainly then splitBody (strip call.behind) else ([], []) := by
  obtain ⟨a, b, c, d, hkeyword, ha, hb, hc, hd⟩ := keyword_letters call.hkeyword
  obtain ⟨front, mark, rest, hbehind, hmark⟩ := behind_mark call
  have hletter {x y : Char} (hx : x.toUpper = y) (hy : isSpace y = false) : isSpace x = false := by
    rw [← isSpace_toUpper, hx, hy]
  rw [splitCallArguments, strip_upper, CallStatement.text, CallStatement.startsPlainly]
  rcases gap_blank_or_comment call.lead with hlead | ⟨blank, e, more, hlead, hblank, he⟩
  · -- The text begins with the keyword.
    have hstrip : strip (gapText call.lead ++ (call.keyword ++ call.behind)) =
        a :: b :: c :: d :: stripRight call.behind := by
      have hmarked := strip_append_mark (hletter hd (by decide)) [a, b, c] call.behind
      rw [strip_blank_append hlead, hkeyword]
      refine hmarked.trans ?_
      rw [dropWhile_eq_self]
      · rfl
      · rintro x ⟨⟩
        exact hletter ha (by decide)
    have hhead : (stripRight call.behind).head? = call.behind.head? := by
      rw [hbehind, stripRight_append_mark hmark]
      cases front <;> rfl
    rw [hstrip, hlead, Bool.true_and]
    cases hright : stripRight call.behind with
    | nil =>
      rw [hright] at hhead
      rw [← hhead]
      simp [upper]
    | cons x xs =>
      rw [hright] at hhead
      rw [← hhead]
      by_cases hx : x = ' '
      · subst hx
        have hdrop : strip xs = strip call.behind := by
          rw [← strip_stripRight call.behind, hright]
          have hspace : isBlank [' '] = true := rfl
          exact (strip_blank_append hspace xs).symm
        simp [upper, ha, hb, hc, hd, hdrop]
      · have hupper : x.toUpper ≠ ' ' := fun h => hx (toUpper_eq_space.mp h)
        simp [upper, hx, Ne.symm hupper]
  · have hmarked : isSpace e = false := by rcases he with rfl | rfl <;> rfl
    have hlead' : isBlank (gapText call.lead) = false := by
      rw [hlead]
      simp [isBlank, hmarked]
    rw [hlead', hlead, List.append_assoc, List.cons_append, strip_blank_append hblank]
    have hstrip := strip_append_mark hmarked [] (more ++ (call.keyword ++ call.behind))
    rw [List.nil_append] at hstrip
    rw [hstrip]
    rcases he with rfl | rfl
    · simp [upper]
    · simp [upper]

/-! ## The name -/

/-- A character that is in no plain name and no white space. -/
def isForeign (c : Char) : Bool := !isSpace c && !isWordPart c && c ≠ '.'

theorem isWordPart_of_letter
    (h : 65 ≤ c.toNat ∧ c.toNat ≤ 90 ∨ 97 ≤ c.toNat ∧ c.toNat ≤ 122) : isWordPart c = true := by
  have halpha : c.isAlpha = true := isAlpha_iff.mpr h
  simp [isWordPart, isWordStart, halpha]

theorem isForeign_toUpper (c : Char) : isForeign c.toUpper = isForeign c := by
  rcases toUpper_letter c with h | ⟨hlower, hupper⟩
  · rw [h]
  · rw [isForeign, isForeign, isWordPart_of_letter (.inl hupper),
      isWordPart_of_letter (.inr hlower)]
    simp

theorem toUpper_eq_quote : c.toUpper = '"' ↔ c = '"' := by
  constructor
  · intro h
    rcases toUpper_letter c with hc | ⟨-, hc⟩
    · rw [← hc, h]
    · rw [h] at hc
      exact absurd hc (by decide)
  · rintro rfl
    rfl

def foreignCount (text : List Char) : Nat := text.countP isForeign

def quoteCount (text : List Char) : Nat := text.countP (· = '"')

theorem foreignCount_append (xs ys : List Char) :
    foreignCount (xs ++ ys) = foreignCount xs + foreignCount ys := List.countP_append

theorem quoteCount_append (xs ys : List Char) :
    quoteCount (xs ++ ys) = quoteCount xs + quoteCount ys := List.countP_append

theorem foreignCount_mark (hc : isForeign c = true) (text : List Char) :
    foreignCount (c :: text) = foreignCount text + 1 := List.countP_cons_of_pos hc

theorem foreignCount_dot (text : List Char) : foreignCount ('.' :: text) = foreignCount text :=
  List.countP_cons_of_neg (by decide)

theorem quoteCount_mark (text : List Char) : quoteCount ('"' :: text) = quoteCount text + 1 :=
  List.countP_cons_of_pos (by decide)

theorem quoteCount_other (hc : c ≠ '"') (text : List Char) :
    quoteCount (c :: text) = quoteCount text := List.countP_cons_of_neg (by simpa using hc)

theorem foreignCount_upper (text : List Char) : foreignCount (upper text) = foreignCount text := by
  have hmap : isForeign ∘ Char.toUpper = isForeign := funext isForeign_toUpper
  rw [foreignCount, upper, List.countP_map, hmap]
  rfl

theorem foreignCount_upper_strip (text : List Char) :
    foreignCount (upper (strip text)) = foreignCount text := by
  rw [foreignCount_upper]
  exact countP_strip (fun c hc => by simp [isForeign, hc]) text

theorem quoteCount_upper (text : List Char) : quoteCount (upper text) = quoteCount text := by
  have hmap : (fun c => decide (c = '"')) ∘ Char.toUpper = fun c => decide (c = '"') :=
    funext fun c => by simp [toUpper_eq_quote]
  rw [quoteCount, upper, List.countP_map, hmap]
  rfl

theorem quoteCount_upper_strip (text : List Char) :
    quoteCount (upper (strip text)) = quoteCount text := by
  rw [quoteCount_upper]
  refine countP_strip (fun c hc => ?_) text
  rw [decide_eq_false_iff_not]
  rintro rfl
  cases hc

theorem foreignCount_blank {text : List Char} (h : isBlank text = true) :
    foreignCount text = 0 := by
  rw [foreignCount, List.countP_eq_zero]
  intro c hc
  simp [isForeign, List.all_eq_true.mp h c hc]

theorem quoteCount_blank {text : List Char} (h : isBlank text = true) : quoteCount text = 0 := by
  rw [quoteCount, List.countP_eq_zero]
  intro c hc
  simpa using fun heq : c = '"' => notMem_of_isBlank (c := '"') (by decide) h (heq ▸ hc)

theorem gap_foreign (gap : Gap) : isBlank (gapText gap) = true ∨
    2 ≤ foreignCount (gapText gap) := by
  induction gap with
  | nil => exact .inl rfl
  | cons piece gap ih =>
    rw [gapText, List.flatMap_cons, foreignCount_append]
    cases piece with
    | space c hc =>
      rcases ih with ih | ih
      · exact .inl (Bool.and_eq_true_iff.mpr ⟨hc, ih⟩)
      · exact .inr (ih.trans (Nat.le_add_left _ _))
    | line body h =>
      rw [GapPiece.text, foreignCount_mark (by decide), foreignCount_mark (by decide)]
      omega
    | block body h =>
      rw [GapPiece.text, foreignCount_mark (by decide), foreignCount_mark (by decide)]
      omega

theorem quoteCount_quoted (body : List Char) :
    quoteCount body + 2 ≤ quoteCount (quoted '"' body) := by
  have hbody : quoteCount body ≤
      quoteCount (body.flatMap fun c => if c = '"' then ['"', '"'] else [c]) := by
    induction body with
    | nil => exact Nat.le_refl _
    | cons c body ih =>
      rw [List.flatMap_cons, quoteCount_append]
      by_cases hc : c = '"'
      · subst hc
        rw [if_pos rfl, quoteCount_mark, quoteCount_mark]
        omega
      · rw [if_neg hc, quoteCount_other hc]
        omega
  rw [quoted, quoteCount_mark, quoteCount_append, quoteCount_mark]
  omega

theorem part_quotes (part : NamePart) : part.text = part.name ∧ part.isPlain = true ∨
    quoteCount part.name < quoteCount part.text := by
  cases part with
  | plain => exact .inl ⟨rfl, rfl⟩
  | delimited body hne =>
    right
    have h := quoteCount_quoted body
    show quoteCount body < quoteCount (quoted '"' body)
    omega

/-- The parts of the name are plain. -/
def RoutineName.hasPlainParts (name : RoutineName) : Bool :=
  name.first.isPlain && name.more.all fun q => q.part.isPlain

theorem quoteCount_more (more : List QualifiedPart) :
    quoteCount (more.flatMap fun q => '.' :: q.part.name) ≤
    quoteCount (more.flatMap QualifiedPart.text) ∧
      (quoteCount (more.flatMap QualifiedPart.text) ≤
          quoteCount (more.flatMap fun q => '.' :: q.part.name) →
        (more.all fun q => q.part.isPlain) = true) := by
  induction more with
  | nil => exact ⟨Nat.le_refl _, fun _ => rfl⟩
  | cons q more ih =>
    obtain ⟨hle, hplain⟩ := ih
    rw [List.flatMap_cons, List.flatMap_cons, quoteCount_append, quoteCount_append,
      QualifiedPart.text, quoteCount_append, quoteCount_other (by decide),
      quoteCount_other (by decide), quoteCount_append, List.all_cons]
    rcases part_quotes q.part with ⟨htext, hpart⟩ | hlt
    · rw [htext, hpart, Bool.true_and]
      exact ⟨by omega, fun h => hplain (by omega)⟩
    · exact ⟨by omega, fun h => by omega⟩

variable {name : RoutineName}

theorem hasPlainParts_of_quotes
    (h : quoteCount name.text ≤ quoteCount name.dotted) : name.hasPlainParts = true := by
  obtain ⟨hle, hplain⟩ := quoteCount_more name.more
  rw [RoutineName.text, RoutineName.dotted, quoteCount_append, quoteCount_append] at h
  rw [RoutineName.hasPlainParts]
  rcases part_quotes name.first with ⟨htext, hpart⟩ | hlt
  · rw [hpart, Bool.true_and]
    rw [htext] at h
    exact hplain (by omega)
  · omega

theorem foreignCount_part {part : NamePart} (h : part.isPlain = true) :
    foreignCount part.name = 0 ∧ part.text = part.name := by
  cases part with
  | plain chars hne hword =>
    refine ⟨?_, rfl⟩
    rw [foreignCount, List.countP_eq_zero]
    intro c hc
    simp [isForeign, hword c hc]
  | delimited => cases h

theorem foreignCount_more {more : List QualifiedPart}
    (h : (more.all fun q => q.part.isPlain) = true) :
    foreignCount (more.flatMap fun q => '.' :: q.part.name) = 0 ∧
      (foreignCount (more.flatMap QualifiedPart.text) = 0 ∨
        2 ≤ foreignCount (more.flatMap QualifiedPart.text)) := by
  induction more with
  | nil => exact ⟨rfl, .inl rfl⟩
  | cons q more ih =>
    obtain ⟨hq, hmore⟩ := Bool.and_eq_true_iff.mp h
    obtain ⟨hname, htext⟩ := foreignCount_part hq
    obtain ⟨hdotted, hwritten⟩ := ih hmore
    have hgap (gap : Gap) : foreignCount (gapText gap) = 0 ∨ 2 ≤ foreignCount (gapText gap) :=
      (gap_foreign gap).imp_left foreignCount_blank
    rw [List.flatMap_cons, List.flatMap_cons, foreignCount_append, foreignCount_append,
      QualifiedPart.text, foreignCount_append, foreignCount_dot, foreignCount_dot,
      foreignCount_append, htext, hname, hdotted]
    refine ⟨rfl, ?_⟩
    have hbefore := hgap q.before
    have hbehind := hgap q.behind
    omega

theorem foreignCount_name (h : name.hasPlainParts = true) :
    foreignCount name.dotted = 0 ∧ (foreignCount name.text = 0 ∨ 2 ≤ foreignCount name.text) := by
  obtain ⟨hfirst, hmore⟩ := Bool.and_eq_true_iff.mp h
  obtain ⟨hname, htext⟩ := foreignCount_part hfirst
  obtain ⟨hdotted, hwritten⟩ := foreignCount_more hmore
  rw [RoutineName.text, RoutineName.dotted, foreignCount_append, foreignCount_append, htext, hname,
    hdotted]
  exact ⟨rfl, by omega⟩

theorem isPlain_of_length (h : name.hasPlainParts = true)
    (hlength : name.text.length = name.dotted.length) : name.isPlain = true := by
  obtain ⟨hfirst, hmore⟩ := Bool.and_eq_true_iff.mp h
  have hparts : ∀ {more : List QualifiedPart}, (more.all fun q => q.part.isPlain) = true →
      (more.flatMap fun q => '.' :: q.part.name).length ≤ (more.flatMap QualifiedPart.text).length ∧
        ((more.flatMap QualifiedPart.text).length ≤
            (more.flatMap fun q => '.' :: q.part.name).length →
          more.all QualifiedPart.isPlain = true) := by
    intro more hmore
    induction more with
    | nil => exact ⟨Nat.le_refl _, fun _ => rfl⟩
    | cons q more ih =>
      obtain ⟨hq, hmore⟩ := Bool.and_eq_true_iff.mp hmore
      obtain ⟨hle, hplain⟩ := ih hmore
      have htext := (foreignCount_part hq).2
      simp only [List.flatMap_cons, List.length_append, QualifiedPart.text, List.length_cons, htext,
        List.all_cons, Bool.and_eq_true, QualifiedPart.isPlain, decide_eq_true_eq]
      refine ⟨by omega, fun hlong => ⟨⟨⟨?_, ?_⟩, hq⟩, hplain (by omega)⟩⟩
      · exact List.length_eq_zero_iff.mp (by omega)
      · exact List.length_eq_zero_iff.mp (by omega)
  obtain ⟨hle, hplain⟩ := hparts hmore
  rw [RoutineName.isPlain, hfirst, Bool.true_and]
  rw [RoutineName.text, RoutineName.dotted, List.length_append, List.length_append,
    (foreignCount_part hfirst).2] at hlength
  exact hplain (by omega)

theorem strip_around {front tail : List Char} (hfront : isBlank front = true)
    (htail : isBlank tail = true) : strip (front ++ (name.text ++ tail)) = name.text := by
  obtain ⟨⟨c, rest, hhead, hc⟩, left, d, hlast, hd⟩ := name_text_ends name
  rw [strip_blank_append hfront, strip_append_blank htail]
  refine stripBy_eq_self ?_ ?_
  · rw [hhead]
    rintro y ⟨⟩
    exact hc
  · rw [hlast, List.getLast?_append]
    rintro y ⟨⟩
    exact hd

theorem text_of_isPlain (h : name.isPlain = true) :
    name.text = name.dotted ∧ name.hasPlainParts = true := by
  obtain ⟨hfirst, hmore⟩ := Bool.and_eq_true_iff.mp h
  have htexts : ∀ {more : List QualifiedPart}, more.all QualifiedPart.isPlain = true →
      more.flatMap QualifiedPart.text = (more.flatMap fun q => '.' :: q.part.name) ∧
        (more.all fun q => q.part.isPlain) = true := by
    intro more hmore
    induction more with
    | nil => exact ⟨rfl, rfl⟩
    | cons q more ih =>
      obtain ⟨hq, hmore⟩ := Bool.and_eq_true_iff.mp hmore
      obtain ⟨htext, hparts⟩ := ih hmore
      simp only [QualifiedPart.isPlain, Bool.and_eq_true, decide_eq_true_eq] at hq
      obtain ⟨⟨hbefore, hbehind⟩, hpart⟩ := hq
      refine ⟨?_, Bool.and_eq_true_iff.mpr ⟨hpart, hparts⟩⟩
      rw [List.flatMap_cons, List.flatMap_cons, htext, QualifiedPart.text, hbefore, hbehind,
        (foreignCount_part hpart).2]
      rfl
  obtain ⟨htext, hparts⟩ := htexts hmore
  refine ⟨?_, Bool.and_eq_true_iff.mpr ⟨hfirst, hparts⟩⟩
  rw [RoutineName.text, RoutineName.dotted, htext, (foreignCount_part hfirst).2]

/-- **The name**: when a text that is all of the spelling, or all but a parenthesis at its end,
strips to the name, then it is all of the spelling, and this is a plain name with white space around
it. -/
theorem named_of_strip {separator : Gap} {tail front back : List Char}
    (hspelling : gapText separator ++ (name.text ++ tail) = front ++ back)
    (htail : foreignCount tail = 0 → isBlank tail = true)
    (hback : back = [] ∨ foreignCount tail ≠ 1 ∧ ∃ blank, back = '(' :: blank ∧
      isBlank blank = true)
    (hvalue : upper (strip front) = name.value) :
    back = [] ∧ name.isPlain = true ∧ isBlank (gapText separator) = true ∧ isBlank tail = true := by
  have hforeign : foreignCount front = foreignCount name.dotted := by
    rw [← foreignCount_upper_strip, hvalue, RoutineName.value, foreignCount_upper]
  have hquotes : quoteCount front = quoteCount name.dotted := by
    rw [← quoteCount_upper_strip, hvalue, RoutineName.value, quoteCount_upper]
  have hbackquotes : quoteCount back = 0 := by
    rcases hback with rfl | ⟨-, blank, rfl, hblank⟩
    · rfl
    · rw [quoteCount_other (by decide), quoteCount_blank hblank]
  -- The quotes show that the parts are plain.
  have hcount := congrArg quoteCount hspelling
  rw [quoteCount_append, quoteCount_append, quoteCount_append] at hcount
  have hparts : name.hasPlainParts = true := hasPlainParts_of_quotes (by omega)
  obtain ⟨hdotted, hname⟩ := foreignCount_name hparts
  have hcount := congrArg foreignCount hspelling
  rw [foreignCount_append, foreignCount_append, foreignCount_append, hforeign, hdotted] at hcount
  have hseparator := gap_foreign separator
  -- A single parenthesis is less than what a comment has.
  have hempty : back = [] := by
    refine hback.resolve_right ?_
    rintro ⟨hone, blank, rfl, hblank⟩
    rw [foreignCount_mark (by decide), foreignCount_blank hblank] at hcount
    rcases hseparator with hseparator | hseparator
    · rw [foreignCount_blank hseparator] at hcount
      omega
    · omega
  subst hempty
  have hzero : foreignCount [] = 0 := rfl
  have hseparator : isBlank (gapText separator) = true := hseparator.resolve_right (by omega)
  have htail : isBlank tail = true := htail (by omega)
  rw [List.append_nil] at hspelling
  rw [← hspelling, strip_around hseparator htail, RoutineName.value] at hvalue
  refine ⟨rfl, isPlain_of_length hparts ?_, hseparator, htail⟩
  simpa [upper] using congrArg List.length hvalue

theorem strip_of_named {separator : Gap} {tail : List Char}
    (hname : name.isPlain = true) (hseparator : isBlank (gapText separator) = true)
    (htail : isBlank tail = true) :
    upper (strip (gapText separator ++ (name.text ++ tail))) = name.value ∧
      '(' ∉ gapText separator ++ (name.text ++ tail) := by
  obtain ⟨htext, hparts⟩ := text_of_isPlain hname
  refine ⟨by rw [strip_around hseparator htail, htext, RoutineName.value], fun hmem => ?_⟩
  have hzero : foreignCount (gapText separator ++ (name.text ++ tail)) = 0 := by
    rw [foreignCount_append, foreignCount_append, foreignCount_blank hseparator,
      foreignCount_blank htail, htext, (foreignCount_name hparts).1]
  rw [foreignCount, List.countP_eq_zero] at hzero
  exact hzero '(' hmem (by decide)

/-! ## The list -/

theorem argument_strip_ne (a : Argument) : strip a.text ≠ [] := by
  rw [Ne, strip_eq_nil_iff, ← isBlank_iff, Argument.text, a.hne]
  exact Bool.false_ne_true

/-- The text of a list is cut into its arguments exactly when it can be read. -/
theorem splitMarks_list (list : ArgumentList) :
    splitMarks outside [] list.text = list.actuals ↔ list.isReadable = true := by
  cases list with
  | empty gap =>
    rw [ArgumentList.text, ArgumentList.actuals, splitMarks_eq_nil, strip_eq_nil_iff, ← isBlank_iff,
      ArgumentList.isReadable]
  | nonempty first more =>
    have hmore : ∀ x ∈ more.map Argument.text, strip x ≠ [] := by
      intro x hx
      obtain ⟨a, -, rfl⟩ := List.mem_map.mp hx
      exact argument_strip_ne a
    have hjoin := splitMarks_join (argument_strip_ne first) hmore
    rw [List.map_cons, List.map_map] at hjoin
    exact hjoin

theorem weight_list (list : ArgumentList) :
    (list.actuals.map weight).sum + list.actuals.length = 0 ∨
      (list.actuals.map weight).sum + list.actuals.length = weight list.text + 1 := by
  cases list with
  | empty gap => exact .inl rfl
  | nonempty first more =>
    right
    have hjoin := weight_join first.text (more.map Argument.text)
    rw [List.map_cons, List.map_map] at hjoin
    exact hjoin.symm

section List

variable {list : ArgumentList}

theorem blank_of_actuals {front extra : List Char}
    (h : splitMarks outside [] (front ++ '(' :: (list.text ++ extra)) = list.actuals) :
    isBlank front = true := by
  have hle := weight_le outside [] (front ++ '(' :: (list.text ++ extra))
  have hopen : weight ['('] = 1 := by decide
  have hnil : weight [] = 0 := rfl
  rw [h, weight_append, weight_cons, weight_append] at hle
  rw [isBlank_iff]
  have hlist := weight_list list
  omega

theorem not_actuals_of_closing (extra : List Char) :
    splitMarks outside [] (list.text ++ ')' :: extra) ≠ list.actuals := by
  intro h
  have hle := weight_le outside [] (list.text ++ ')' :: extra)
  have hclose : weight [')'] = 1 := by decide
  have hnil : weight [] = 0 := rfl
  rw [h, weight_append, weight_cons] at hle
  have hlist := weight_list list
  have hblank : weight extra = 0 := by omega
  have hstrict := weight_succ_le outside [] list.text (c := ')') (by decide) (by decide) hblank
  rw [h, weight_append, weight_cons] at hstrict
  omega

theorem exists_last_closing (list : ArgumentList) (ending : List Char) :
    ∃ extra tail, list.text ++ ')' :: ending = (list.text ++ extra) ++ ')' :: tail ∧ ')' ∉ tail ∧
      (extra = [] ∧ ')' ∉ ending ∨ ')' ∈ ending ∧ ∃ more, extra = ')' :: more) := by
  by_cases hending : ')' ∈ ending
  · obtain ⟨more, tail, rfl, htail⟩ := exists_last hending
    exact ⟨')' :: more, tail, by simp, htail, .inr ⟨hending, more, rfl⟩⟩
  · exact ⟨[], ending, by simp, hending, .inl ⟨rfl, hending⟩⟩

/-- **The split of a call with a list**: the name is a plain one with white space around it, and the
list is closed last and can be read. -/
theorem splitBody_list {separator gap : Gap} {name : RoutineName} {ending : List Char} :
    splitBody (strip (gapText separator ++ (name.text ++ gapText gap) ++
        '(' :: (list.text ++ ')' :: ending))) = (name.value, list.actuals) ↔
      (name.isPlain = true ∧ isBlank (gapText separator) = true ∧ isBlank (gapText gap) = true) ∧
        ')' ∉ ending ∧ list.isReadable = true := by
  obtain ⟨extra, tail, hlast, htail, hextra⟩ := exists_last_closing list ending
  have hgap : foreignCount (gapText gap) = 0 → isBlank (gapText gap) = true := fun h =>
    (gap_foreign gap).resolve_right (by omega)
  rw [hlast]
  by_cases hopen : '(' ∈ gapText separator ++ (name.text ++ gapText gap)
  · -- An earlier parenthesis is taken for that of the list.
    obtain ⟨front, back, hspelling, hfront⟩ := List.eq_append_cons_of_mem hopen
    refine iff_of_false (fun h => ?_) fun h => (strip_of_named h.1.1 h.1.2.1 h.1.2.2).2 hopen
    have hwhole : front ++ '(' :: back ++ '(' :: (list.text ++ extra ++ ')' :: tail) =
        front ++ '(' :: ((back ++ '(' :: (list.text ++ extra)) ++ ')' :: tail) := by simp
    rw [hspelling, hwhole, splitBody_closed hfront htail, Prod.mk.injEq] at h
    have hblank := blank_of_actuals h.2
    have hone : foreignCount (gapText gap) ≠ 1 := by
      rcases gap_foreign gap with hgap | hgap
      · rw [foreignCount_blank hgap]
        decide
      · omega
    exact absurd (named_of_strip hspelling hgap (.inr ⟨hone, back, rfl, hblank⟩) h.1).1 (by simp)
  · rw [splitBody_closed hopen htail, Prod.mk.injEq]
    rcases hextra with ⟨rfl, hending⟩ | ⟨hending, more, rfl⟩
    · rw [List.append_nil, splitMarks_list]
      constructor
      · rintro ⟨hvalue, hread⟩
        obtain ⟨-, hnamed⟩ := named_of_strip (List.append_nil _).symm hgap (.inl rfl) hvalue
        exact ⟨hnamed, hending, hread⟩
      · rintro ⟨⟨hname, hseparator, hgap⟩, -, hread⟩
        exact ⟨(strip_of_named hname hseparator hgap).1, hread⟩
    · exact iff_of_false (fun h => not_actuals_of_closing more h.2) fun h => h.2.1 hending

end List

/-! ## The statement -/

theorem first_unique {xs ys zs ws : List Char} (hx : c ∉ xs) (hz : c ∉ zs)
    (h : xs ++ c :: ys = zs ++ c :: ws) : xs = zs ∧ ys = ws := by
  induction xs generalizing zs with
  | nil =>
    cases zs with
    | nil => exact ⟨rfl, (List.cons.inj h).2⟩
    | cons z zs => exact absurd ((List.cons.inj h).1 ▸ List.mem_cons_self) hz
  | cons x xs ih =>
    cases zs with
    | nil => exact absurd ((List.cons.inj h).1 ▸ List.mem_cons_self) hx
    | cons z zs =>
      obtain ⟨rfl, hrest⟩ := List.cons.inj h
      rw [List.mem_cons, not_or] at hx hz
      obtain ⟨rfl, rfl⟩ := ih hx.2 hz.2 hrest
      exact ⟨rfl, rfl⟩

theorem last_unique {xs ys zs ws : List Char} (hy : c ∉ ys) (hw : c ∉ ws)
    (h : xs ++ c :: ys = zs ++ c :: ws) : xs = zs ∧ ys = ws := by
  have hreverse := congrArg List.reverse h
  rw [List.reverse_append, List.reverse_append, List.reverse_cons, List.reverse_cons,
    List.append_assoc, List.append_assoc] at hreverse
  obtain ⟨hys, hxs⟩ := first_unique (by simpa using hy) (by simpa using hw) hreverse
  exact ⟨List.reverse_inj.mp hxs, List.reverse_inj.mp hys⟩

theorem value_ne_nil (name : RoutineName) : name.value ≠ [] := by
  rw [RoutineName.value, upper, Ne, List.map_eq_nil_iff, RoutineName.dotted, List.append_eq_nil_iff]
  rintro ⟨hfirst, -⟩
  cases hname : name.first with
  | plain chars hne h => exact hne (by rw [hname] at hfirst; exact hfirst)
  | delimited body hne => exact hne (by rw [hname] at hfirst; exact hfirst)

namespace CallStatement

variable {call : CallStatement}

theorem ending_blank (call : CallStatement) (h : foreignCount call.ending = 0) :
    isBlank call.ending = true := by
  have hgap (gap : Gap) (h : foreignCount (gapText gap) = 0) : isBlank (gapText gap) = true :=
    (gap_foreign gap).resolve_right (by omega)
  rw [ending, foreignCount_append, foreignCount_append, foreignCount_append] at h
  rw [ending, isBlank_append, isBlank_append, isBlank_append]
  refine ⟨hgap _ (by omega), ?_, hgap _ (by omega), ?_⟩
  · cases hsemicolon : call.semicolon with
    | false => rfl
    | true =>
      rw [hsemicolon] at h
      have hone : foreignCount [';'] = 1 := by decide
      simp only [if_true] at h
      omega
  · cases hlast : call.lastComment with
    | none => rfl
    | some body =>
      rw [hlast] at h
      simp only [Option.map_some, Option.getD_some] at h
      rw [foreignCount_mark (by decide)] at h
      omega

/-- A call without a list is read as a name alone. -/
theorem splitBody_noList (hlist : call.list = none) :
    splitBody (strip call.behind) = (call.name.value, []) ↔
      call.isNamedPlainly = true ∨ call.IsNamedByAccident := by
  have hspelling : call.spelling = gapText call.separator ++ (call.name.text ++ call.ending) := by
    rw [spelling, hlist]
  have hbehind : call.behind = call.spelling := by rw [behind, hlist]
  have hnamed : call.isNamedPlainly = true ↔ call.name.isPlain = true ∧
      isBlank (gapText call.separator) = true ∧ isBlank call.ending = true := by
    rw [isNamedPlainly, hlist, Bool.and_eq_true, Bool.and_eq_true, and_assoc]
  rw [hbehind, hnamed]
  by_cases hopen : '(' ∈ call.spelling
  · -- The text is cut at a parenthesis that is inside a comment or a delimited name.
    obtain ⟨before, after, hcut, hbefore⟩ := List.eq_append_cons_of_mem hopen
    have hplain : ¬ (call.name.isPlain = true ∧ isBlank (gapText call.separator) = true ∧
        isBlank call.ending = true) := fun h =>
      (strip_of_named h.1 h.2.1 h.2.2).2 (hspelling ▸ hopen)
    rw [or_iff_right hplain]
    have haccident : call.IsNamedByAccident ↔ upper (strip before) = call.name.value ∧
        ∀ inside tail, after = inside ++ ')' :: tail → ')' ∉ tail → isBlank inside = true := by
      constructor
      · rintro ⟨-, before', after', hcut', hbefore', h⟩
        obtain ⟨rfl, rfl⟩ := first_unique hbefore hbefore' (hcut.symm.trans hcut')
        exact h
      · exact fun h => ⟨hlist, before, after, hcut, hbefore, h⟩
    rw [haccident, hcut]
    by_cases hclose : ')' ∈ after
    · obtain ⟨inside, tail, rfl, htail⟩ := exists_last hclose
      rw [splitBody_closed hbefore htail, Prod.mk.injEq, splitMarks_eq_nil, strip_eq_nil_iff,
        ← isBlank_iff]
      refine and_congr_right fun _ => ⟨?_, fun h => h inside tail rfl htail⟩
      rintro hblank inside' tail' heq htail'
      obtain ⟨rfl, -⟩ := last_unique htail htail' heq
      exact hblank
    · rw [splitBody_open hbefore hclose, Prod.mk.injEq, and_iff_left rfl, iff_self_and]
      rintro - inside tail rfl
      exact absurd (List.mem_append_right _ List.mem_cons_self) hclose
  · have haccident : ¬ call.IsNamedByAccident := by
      rintro ⟨-, before, after, hcut, -⟩
      exact hopen (hcut ▸ List.mem_append_right _ List.mem_cons_self)
    rw [or_iff_left haccident, splitBody_name hopen, Prod.mk.injEq, and_iff_left rfl, hspelling]
    constructor
    · intro hvalue
      exact (named_of_strip (List.append_nil _).symm call.ending_blank (.inl rfl) hvalue).2
    · rintro ⟨hname, hseparator, hending⟩
      exact (strip_of_named hname hseparator hending).1

/-- **When the split is right**: `_split_call_arguments` finds the name of the routine and the
arguments of exactly these statements. -/
theorem split_iff (call : CallStatement) :
    splitCallArguments call.text = (call.name.value, call.actuals) ↔ call.IsSplitRight := by
  rw [splitCallArguments_text, IsSplitRight]
  cases hstart : call.startsPlainly with
  | false =>
    refine iff_of_false (fun h => ?_) fun h => Bool.false_ne_true h.1
    exact value_ne_nil call.name (Prod.mk.inj h).1.symm
  | true =>
    rw [if_pos rfl, and_iff_right rfl]
    cases hlist : call.list with
    | none =>
      have hactuals : call.actuals = [] := by rw [actuals, hlist]
      have hread : call.isListReadable = true := by rw [isListReadable, hlist]
      rw [hactuals, splitBody_noList hlist, and_iff_left hread]
    | some pair =>
      obtain ⟨gap, list⟩ := pair
      have haccident : ¬ call.IsNamedByAccident := fun h =>
        nomatch hlist.symm.trans h.1
      have hbehind : call.behind = gapText call.separator ++ (call.name.text ++ gapText gap) ++
          '(' :: (list.text ++ ')' :: call.ending) := by rw [behind, spelling, hlist]
      have hactuals : call.actuals = list.actuals := by rw [actuals, hlist]
      rw [hbehind, hactuals, or_iff_left haccident, splitBody_list, isNamedPlainly, isListReadable,
        hlist]
      simp only [Bool.and_eq_true, decide_eq_true_eq, and_assoc]

end CallStatement

end AtlasDb.Composition
