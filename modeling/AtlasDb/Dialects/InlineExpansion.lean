import Mathlib.Data.List.TakeWhile
import AtlasDb.Core.Patterns
import AtlasDb.Dialects.Regions
import Mathlib.Data.List.Forall2

/-!
# Inline control statements

`scanner.py: _expand_inline_control_statements`. A control statement that stands on a line with what
it controls is split into its head and its tail, twelve rounds long. The texts are kept whatever the
input (`content_expandTimes`); where the parts are is not, since a tail is looked for by its text.
Ranges are right when every split finds its tail in its own place, with room for the head in front
of it, and twelve rounds are enough (`expandInlineControlStatements_keeps`).
-/

namespace AtlasDb.Dialects.Inline

open Core Core.Patterns Lib

/-! ## Patterns -/

/-- What stands between the two groups of an expansion pattern. -/
inductive Gap where
  | none
  | spaces
  /-- White space that a word which makes another statement does not follow. -/
  | spacesUnless (ahead : Pattern Char)

def Gap.pattern : Gap → Pattern Char
  | .none => .empty
  | .spaces => Patterns.spaces
  | .spacesUnless ahead => .seq (.notAhead ahead) Patterns.spaces

/-- A pattern with its two groups. -/
structure ExpansionPattern where
  head : Pattern Char
  gap : Gap := .spaces
  tail : Pattern Char := anything true

def ExpansionPattern.pattern (p : ExpansionPattern) : Pattern Char :=
  .seq atStart (.seq (.group 1 p.head) (.seq p.gap.pattern (.seq (.group 2 p.tail) dollar)))

section
variable (letters : Letters)

/-- `WORD\s+.+?\s+END` -/
def between (starts : Pattern Char) (ends : Pattern Char) : Pattern Char :=
  concat [starts, spaces, anything false, spaces, ends]

/-- The statements that can follow the condition of an `IF` of T-SQL; `exec` is in one of the two
patterns only. -/
def tsqlTail (exec : List (Pattern Char)) : Pattern Char :=
  oneOf <|
    [letters.word "BREAK", letters.word "CONTINUE", letters.word "RETURN",
      concat [letters.word "GOTO", spaces, letters.label],
      concat [letters.word "THROW", optional (concat [spaces, anything true])],
      concat [letters.word "RAISERROR", .star true space, .one (· = '('), anything true],
      concat [letters.word "ROLLBACK", optional (concat [spaces, letters.word "TRANSACTION"])],
      concat [letters.word "COMMIT", optional (concat [spaces, letters.word "TRANSACTION"])],
      concat [letters.word "SET", spaces, anything true]] ++ exec

/-- The patterns of every dialect. -/
def commonPatterns : List ExpansionPattern :=
  [{ head := concat [letters.word "BEGIN", spaces, oneOf [letters.word "ATOMIC",
      concat [letters.word "NOT", spaces, letters.word "ATOMIC"]]] },
    { head := concat [letters.word "UNTIL", spaces, anything false]
      gap := .none
      tail := concat [letters.word "END", spaces, letters.word "REPEAT", .star true space,
        optional (.one (· = ';'))] },
    { head := between (letters.word "IF") (letters.word "THEN") },
    { head := between (letters.word "WHILE") (oneOf [letters.word "DO", letters.word "LOOP"]) },
    { head := between (oneOf [letters.word "FOR", letters.word "FOREACH"]) (letters.word "LOOP") },
    { head := letters.word "LOOP" },
    { head := between (oneOf [letters.word "ELSIF", letters.word "ELSEIF",
        concat [letters.word "ELSE", spaces, letters.word "IF"]]) (letters.word "THEN") },
    { head := between (letters.word "WHEN") (letters.word "THEN") },
    { head := letters.word "ELSE"
      gap := .spacesUnless (concat [spaces, letters.word "IF", letters.boundary]) },
    { head := oneOf [concat [letters.word "<<", .one (· ≠ '>'), .star true (.one (· ≠ '>')),
        letters.word ">>"], concat [letters.label, .one (· = ':')]] },
    { head := letters.word "BEGIN"
      gap := .spacesUnless (concat [spaces, oneOf [letters.word "TRY", letters.word "CATCH",
        letters.word "TRAN", letters.word "TRANSACTION", letters.word "ATOMIC",
        concat [letters.word "NOT", spaces, letters.word "ATOMIC"]], letters.boundary]) }]

def tsqlPatterns : List ExpansionPattern :=
  [{ head := concat [letters.word "IF", spaces, anything false]
     tail := tsqlTail letters [concat [letters.word "EXEC", optional (letters.word "UTE"), spaces,
      anything true]] },
    { head := concat [optional (concat [letters.word "ELSE", spaces]), letters.word "IF", spaces,
        anything false]
      tail := tsqlTail letters [] }]

/-- `patterns`, in the order in which they are tried. -/
def expansionPatterns (dialect : DialectId) : List ExpansionPattern :=
  commonPatterns letters ++ if dialect = .sqlserverTsql then tsqlPatterns letters else []

end

/-! ## Expansion -/

/-- `str.rstrip(';')` -/
def rstripSemicolons (text : List Char) : List Char := (text.reverse.dropWhile (· = ';')).reverse

/-- `match.group(index)` -/
def groupOf (m : Pattern.Found Char) (index : Nat) : List Char := (m.groups.lookup index).getD []

/-- Head and tail of a text, when the pattern matches it and leaves a tail. -/
def ExpansionPattern.split? (p : ExpansionPattern) (text : List Char) :
    Option (List Char × List Char) :=
  (p.pattern.firstMatch (rstripSemicolons text)).bind fun m =>
    let head := Text.strip (groupOf m 1)
    let tail := Text.strip (groupOf m 2)
    if tail = [] then none else some (head, tail)

/-- `str.find` -/
def find (needle text : List Char) : Option Nat :=
  (List.range (text.length + 1)).find? fun i => needle.isPrefixOf (text.drop i)

def endsWithSemicolon (text : List Char) : Bool := text.getLast? = some ';'

/-- The tail, with the semicolon of the statement. -/
def terminated (text tail : List Char) : List Char :=
  if endsWithSemicolon (rstrip text) && !endsWithSemicolon tail then tail ++ [';'] else tail

section
variable (letters : Letters) (dialect : DialectId)

/-- Head and tail of a statement's text under the first pattern that splits it. -/
def splitText (text : List Char) : Option (List Char × List Char) :=
  (expansionPatterns letters dialect).findSome? fun p => p.split? (Text.strip text)

/-- `split_at`: where the text of the tail is found first. -/
def splitAt (text head tail : List Char) : Nat :=
  (find (letters.upper tail) (letters.upper text)).getD head.length

def headStatement (s : Statement) (head tail : List Char) : Statement :=
  { s with text := head, endLine := s.startLine,
           endOffset := s.startOffset + splitAt letters s.text head tail }

def tailStatement (s : Statement) (head tail : List Char) : Statement :=
  { s with text := terminated s.text tail,
           startOffset := s.startOffset + splitAt letters s.text head tail }

/-- What a round makes of a statement. -/
def expandStatement (s : Statement) : List Statement :=
  match splitText letters dialect s.text with
  | none => [s]
  | some (head, tail) => [headStatement letters s head tail, tailStatement letters s head tail]

/-- Rounds until nothing changes. -/
def expandRounds : Nat → List Statement → List Statement
  | 0, current => current
  | rounds + 1, current =>
    let expanded := current.flatMap (expandStatement letters dialect)
    if current.any fun s => (splitText letters dialect s.text).isSome then
      expandRounds rounds expanded
    else expanded

/-- `_expand_inline_control_statements` -/
def expandInlineControlStatements (statements : List Statement) : List Statement :=
  expandRounds letters dialect 12 statements

/-- An expansion pattern matches the text. -/
def matchesExpansion (text : List Char) : Bool :=
  (expansionPatterns letters dialect).any fun p =>
    (p.pattern.firstMatch (rstripSemicolons (Text.strip text))).isSome

end

/-! ## What is kept -/

/-- `source[start_offset:end_offset]` -/
def slice (source : List Char) (s : Statement) : List Char :=
  (source.drop s.startOffset).take (s.endOffset - s.startOffset)

/-- The text stands in the statement's own range, white space around it aside. -/
def OccursInRange (source : List Char) (s : Statement) : Prop :=
  Text.strip s.text <:+: slice source s

/-- A text without white space and semicolons. -/
def content (text : List Char) : List Char := text.filter fun c => !Text.isSpace c && c != ';'

/-- The ranges follow each other from one offset to another. -/
inductive Tiles : Nat → Nat → List Statement → Prop where
  | nil {offset : Nat} : Tiles offset offset []
  | cons {s : Statement} {rest : List Statement} {stop : Nat} :
      s.startOffset ≤ s.endOffset → Tiles s.endOffset stop rest →
      Tiles s.startOffset stop (s :: rest)

/-- What the parts of a statement should be. -/
structure Faithful (letters : Letters) (dialect : DialectId) (source : List Char) (s : Statement)
    (parts : List Statement) : Prop where
  tiles : Tiles s.startOffset s.endOffset parts
  content : content (parts.flatMap Statement.text) = content s.text
  occurs : ∀ p ∈ parts, OccursInRange source p
  expanded : ∀ p ∈ parts, matchesExpansion letters dialect p.text = false

/-- The statements of a result are, in order, what the statements of the input should become. -/
def Keeps (letters : Letters) (dialect : DialectId) (source : List Char)
    (statements result : List Statement) : Prop :=
  ∃ parts : List (List Statement), result = parts.flatten ∧
    List.Forall₂ (Faithful letters dialect source) statements parts

theorem Tiles.append {a b c : Nat} {first second : List Statement} (h₁ : Tiles a b first)
    (h₂ : Tiles b c second) : Tiles a c (first ++ second) := by
  induction h₁ with
  | nil => exact h₂
  | cons hle _ ih => exact .cons hle (ih h₂)

theorem content_append (a b : List Char) : content (a ++ b) = content a ++ content b :=
  List.filter_append a b

theorem content_eq_nil {text : List Char} (h : ∀ c ∈ text, Text.isSpace c = true ∨ c = ';') :
    content text = [] := by
  refine List.filter_eq_nil_iff.mpr fun c hc => ?_
  rcases h c hc with hspace | rfl
  · simp [hspace]
  · simp

/-! ## A split -/

theorem strip_split (text : List Char) : ∃ lead trail, text = lead ++ Text.strip text ++ trail ∧
    lead = text.takeWhile Text.isSpace ∧ (∀ c ∈ trail, Text.isSpace c = true) := by
  refine ⟨_, ((text.dropWhile Text.isSpace).reverse.takeWhile Text.isSpace).reverse, ?_, rfl, ?_⟩
  · unfold Text.strip Text.stripBy
    rw [List.append_assoc, ← List.reverse_append, List.takeWhile_append_dropWhile,
      List.reverse_reverse, List.takeWhile_append_dropWhile]
  · intro c hc
    exact List.mem_takeWhile_imp (List.mem_reverse.mp hc)

theorem rstripSemicolons_split (text : List Char) :
    ∃ trail, text = rstripSemicolons text ++ trail ∧ ∀ c ∈ trail, c = ';' := by
  refine ⟨(text.reverse.takeWhile (· = ';')).reverse, ?_, ?_⟩
  · unfold rstripSemicolons
    rw [← List.reverse_append, List.takeWhile_append_dropWhile, List.reverse_reverse]
  · intro c hc
    simpa using List.mem_takeWhile_imp (List.mem_reverse.mp hc)

theorem groupFree_expansionPatterns {letters : Letters} {dialect : DialectId} {p : ExpansionPattern}
    (hp : p ∈ expansionPatterns letters dialect) :
    p.head.groupFree = true ∧ p.tail.groupFree = true := by
  have hcommon : ∀ p ∈ commonPatterns letters,
      p.head.groupFree = true ∧ p.tail.groupFree = true := by
    simp [commonPatterns, between, Pattern.groupFree, space]
  have htsql : ∀ p ∈ tsqlPatterns letters, p.head.groupFree = true ∧ p.tail.groupFree = true := by
    simp [tsqlPatterns, tsqlTail, Pattern.groupFree, space]
  rcases List.mem_append.mp hp with hp | hp
  · exact hcommon p hp
  · split at hp
    · exact htsql p hp
    · exact absurd hp List.not_mem_nil

theorem Gap.matches_pattern {gap : Gap} {prev : Option Char} {read rest : List Char}
    {groups : Pattern.Groups Char} (h : gap.pattern.Matches prev read rest groups) :
    (∀ c ∈ read, Text.isSpace c = true) ∧ groups = [] := by
  cases gap with
  | none =>
    obtain ⟨rfl, rfl⟩ := h
    exact ⟨fun _ hc => absurd hc List.not_mem_nil, rfl⟩
  | spaces => exact ⟨blank_of_spaces h, h.groups_eq_nil groupFree_spaces⟩
  | spacesUnless ahead =>
    obtain ⟨_, _, _, _, rfl, rfl, ⟨-, rfl, rfl⟩, hspaces⟩ := h
    exact ⟨blank_of_spaces hspaces, by rw [hspaces.groups_eq_nil groupFree_spaces, List.append_nil]⟩

/-- A split divides the stripped text: white space stands between head and tail, and white space and
semicolons behind the tail. -/
theorem ExpansionPattern.split?_eq_some {p : ExpansionPattern} {text head tail : List Char}
    (hp : p.head.groupFree = true ∧ p.tail.groupFree = true)
    (hstart : ∀ c ∈ text.head?, Text.isSpace c = false) (h : p.split? text = some (head, tail)) :
    (∃ gap after, text = head ++ (gap ++ (tail ++ after)) ∧ (∀ c ∈ gap, Text.isSpace c = true) ∧
      ∀ c ∈ after, Text.isSpace c = true ∨ c = ';') ∧
      Text.strip head = head ∧ Text.strip tail = tail ∧ tail ≠ [] := by
  obtain ⟨m, hm, hparts⟩ := Option.bind_eq_some_iff.mp h
  obtain ⟨happ, hmatch⟩ := Pattern.firstMatch_sound hm
  obtain ⟨_, _, _, _, hread, hgroups, ⟨-, rfl, rfl⟩, hmatch⟩ := hmatch
  obtain ⟨a, _, _, _, rfl, rfl, ⟨_, rfl, ha⟩, hmatch⟩ := hmatch
  obtain ⟨g, _, _, _, rfl, rfl, hgap, hmatch⟩ := hmatch
  obtain ⟨b, _, _, _, rfl, rfl, ⟨_, rfl, hb⟩, hdollar⟩ := hmatch
  obtain ⟨hrest, rfl, rfl⟩ := blank_of_dollar hdollar
  obtain ⟨hblank, rfl⟩ := Gap.matches_pattern hgap
  rw [ha.groups_eq_nil hp.1, hb.groups_eq_nil hp.2] at hgroups
  have hfirst : groupOf m 1 = a := by rw [groupOf, hgroups]; rfl
  have hsecond : groupOf m 2 = b := by rw [groupOf, hgroups]; rfl
  simp only [hfirst, hsecond] at hparts
  split at hparts
  · exact absurd hparts (by simp)
  next hne =>
  cases hparts
  obtain ⟨semicolons, htext, hsemicolons⟩ := rstripSemicolons_split text
  obtain ⟨lead, trail, hhead, hlead, htrail⟩ := strip_split a
  obtain ⟨lead', trail', htail, hlead', htrail'⟩ := strip_split b
  rw [← happ, hread] at htext
  -- the text begins with a character of its own, so the head does
  have hnil : lead = [] := by
    rw [hlead]
    cases a with
    | nil => rfl
    | cons c cs =>
      have hc : Text.isSpace c = false := hstart c (by rw [htext]; rfl)
      exact List.takeWhile_cons_of_neg (by simp [hc])
  subst hnil
  refine ⟨⟨trail ++ g ++ lead', trail' ++ m.rest ++ semicolons, ?_, ?_, ?_⟩, Text.strip_strip a,
    Text.strip_strip b, hne⟩
  · rw [htext, List.nil_append] at *
    conv_lhs => rw [hhead, htail]
    simp only [List.append_assoc, List.nil_append]
  · intro c hc
    simp only [List.mem_append] at hc
    rcases hc with (hc | hc) | hc
    · exact htrail c hc
    · exact hblank c hc
    · exact List.mem_takeWhile_imp (hlead' ▸ hc)
  · intro c hc
    simp only [List.mem_append] at hc
    rcases hc with (hc | hc) | hc
    · exact .inl (htrail' c hc)
    · exact .inl (hrest c hc)
    · exact .inr (hsemicolons c hc)

section
variable {letters : Letters} {dialect : DialectId}

theorem splitText_eq_some {text head tail : List Char}
    (h : splitText letters dialect text = some (head, tail)) :
    (∃ gap after, Text.strip text = head ++ (gap ++ (tail ++ after)) ∧
      (∀ c ∈ gap, Text.isSpace c = true) ∧ ∀ c ∈ after, Text.isSpace c = true ∨ c = ';') ∧
      Text.strip head = head ∧ Text.strip tail = tail ∧ tail ≠ [] := by
  obtain ⟨p, hp, hsplit⟩ := List.exists_of_findSome?_eq_some h
  exact ExpansionPattern.split?_eq_some (groupFree_expansionPatterns hp) Text.head_strip hsplit

theorem splitText_eq_none {text : List Char} (h : matchesExpansion letters dialect text = false) :
    splitText letters dialect text = none := by
  refine List.findSome?_eq_none_iff.mpr fun p hp => ?_
  have hnone := List.any_eq_false.mp h p hp
  rw [Bool.not_eq_true, Option.isSome_eq_false_iff, Option.isNone_iff_eq_none] at hnone
  rw [ExpansionPattern.split?, hnone]
  rfl

theorem strip_terminated {text tail : List Char} (h : Text.strip tail = tail) (hne : tail ≠ []) :
    Text.strip (terminated text tail) = terminated text tail := by
  unfold terminated
  split
  · obtain ⟨hhead, -⟩ := Text.strip_eq_self_iff.mp h
    refine Text.strip_eq_self_iff.mpr ⟨?_, ?_⟩
    · obtain ⟨c, cs, rfl⟩ := List.exists_cons_of_ne_nil hne
      exact hhead
    · intro c hc
      rw [List.getLast?_append] at hc
      obtain rfl : c = ';' := by simpa using hc.symm
      decide
  · exact h

theorem content_strip (text : List Char) : content (Text.strip text) = content text := by
  obtain ⟨lead, trail, htext, hlead, htrail⟩ := strip_split text
  have hnil : content lead = [] :=
    content_eq_nil fun c hc => .inl (List.mem_takeWhile_imp (hlead ▸ hc))
  conv_rhs => rw [htext]
  rw [content_append, content_append, hnil, content_eq_nil fun c hc => .inl (htrail c hc),
    List.nil_append, List.append_nil]

theorem content_terminated (text tail : List Char) :
    content (terminated text tail) = content tail := by
  unfold terminated
  split
  · rw [content_append, show content [';'] = [] from content_eq_nil (by simp), List.append_nil]
  · rfl

theorem content_expandStatement (s : Statement) :
    content ((expandStatement letters dialect s).flatMap Statement.text) = content s.text := by
  unfold expandStatement
  split
  · rw [List.flatMap_cons, List.flatMap_nil, List.append_nil]
  · next head tail h =>
      obtain ⟨⟨gap, after, htext, hgap, hafter⟩, -⟩ := splitText_eq_some h
      show content (head ++ (terminated s.text tail ++ [])) = content s.text
      rw [← content_strip s.text, htext, List.append_nil]
      simp only [content_append, content_terminated]
      rw [content_eq_nil fun c hc => .inl (hgap c hc), content_eq_nil hafter, List.nil_append,
        List.append_nil]

/-! ## Rounds -/

variable (letters dialect) in
/-- So many rounds of one statement, without a look at the others. -/
def expandTimes : Nat → Statement → List Statement
  | 0, s => [s]
  | rounds + 1, s => (expandStatement letters dialect s).flatMap (expandTimes rounds)

variable {s : Statement} {source : List Char}

theorem expandTimes_of_splitText (h : splitText letters dialect s.text = none)
    (rounds : Nat) : expandTimes letters dialect rounds s = [s] := by
  induction rounds with
  | zero => rfl
  | succ rounds ih =>
    have hstep : expandStatement letters dialect s = [s] := by rw [expandStatement, h]
    rw [expandTimes, hstep, List.flatMap_cons, List.flatMap_nil, List.append_nil, ih]

theorem expandRounds_eq (rounds : Nat) (current : List Statement) :
    expandRounds letters dialect rounds current
      = current.flatMap (expandTimes letters dialect rounds) := by
  induction rounds generalizing current with
  | zero => exact (List.flatMap_singleton' current).symm
  | succ rounds ih =>
    rw [expandRounds]
    split
    · rw [ih, List.flatMap_assoc]
      rfl
    · next h =>
        refine List.flatMap_congr fun s hs => ?_
        have hnone : splitText letters dialect s.text = none := by
          simpa using fun hsome => h (List.any_eq_true.mpr ⟨s, hs, hsome⟩)
        rw [expandTimes_of_splitText hnone, expandStatement, hnone]

theorem content_expandTimes (rounds : Nat) (s : Statement) :
    content ((expandTimes letters dialect rounds s).flatMap Statement.text) = content s.text := by
  induction rounds generalizing s with
  | zero => exact congrArg content (List.append_nil s.text)
  | succ rounds ih =>
    have hall : ∀ statements : List Statement,
        content ((statements.flatMap (expandTimes letters dialect rounds)).flatMap Statement.text)
          = content (statements.flatMap Statement.text) := by
      intro statements
      induction statements with
      | nil => rfl
      | cons t ts iht =>
        simp only [List.flatMap_cons, List.flatMap_append, content_append] at iht ⊢
        rw [ih t, iht]
    rw [expandTimes, hall, content_expandStatement]

/-! ## When the expansion is faithful -/

variable (letters dialect)

/-- So many rounds are enough for the text. -/
inductive ExpandsWithin : Nat → List Char → Prop where
  | whole {rounds : Nat} {text : List Char} :
      matchesExpansion letters dialect text = false → ExpandsWithin rounds text
  | split {rounds : Nat} {text head tail : List Char} :
      splitText letters dialect text = some (head, tail) → ExpandsWithin rounds head →
      ExpandsWithin rounds (terminated text tail) → ExpandsWithin (rounds + 1) text

/-- The text divides at a split, the semicolon that the tail is given included, and where the tail
is found lies in the white space between the two. `front` is the length of what is in front of the
text in its range. -/
def Located (front : Nat) (text head gap tail : List Char) : Prop :=
  (∃ after, Text.strip text = head ++ (gap ++ (terminated text tail ++ after))) ∧
    front + head.length ≤ splitAt letters text head tail ∧
    splitAt letters text head tail ≤ front + head.length + gap.length

/-- So many rounds are enough for the text, and every split of it finds the tail in its place. -/
inductive Splits : Nat → Nat → List Char → Prop where
  | whole {rounds front : Nat} {text : List Char} :
      matchesExpansion letters dialect text = false → Splits rounds front text
  | split {rounds front : Nat} {text head gap tail : List Char} :
      splitText letters dialect text = some (head, tail) →
      Located letters front text head gap tail →
      Splits rounds front head →
      Splits rounds (front + head.length + gap.length - splitAt letters text head tail)
        (terminated text tail) →
      Splits (rounds + 1) front text

/-- The text of the statement stands in its range, so far behind the beginning. -/
def StandsAt (source : List Char) (front : Nat) (s : Statement) : Prop :=
  s.startOffset ≤ s.endOffset ∧
    ∃ lead back, slice source s = lead ++ (Text.strip s.text ++ back) ∧ lead.length = front

/-- The condition on a statement. -/
def InPlace (source : List Char) (s : Statement) : Prop :=
  ∃ front, StandsAt source front s ∧ Splits letters dialect 12 front s.text

variable {letters dialect}

/-- Nothing is left to expand iff the rounds suffice. -/
theorem expanded_iff {rounds : Nat} :
    (∀ p ∈ expandTimes letters dialect rounds s, matchesExpansion letters dialect p.text = false) ↔
      ExpandsWithin letters dialect rounds s.text := by
  constructor
  · intro h
    induction rounds generalizing s with
    | zero => exact .whole (h s (List.mem_singleton_self s))
    | succ rounds ih =>
      cases hsplit : splitText letters dialect s.text with
      | none =>
        rw [expandTimes_of_splitText hsplit] at h
        exact .whole (h s (List.mem_singleton_self s))
      | some parts =>
        obtain ⟨head, tail⟩ := parts
        have hstep : expandStatement letters dialect s =
            [headStatement letters s head tail, tailStatement letters s head tail] := by
          rw [expandStatement, hsplit]
        rw [expandTimes, hstep] at h
        simp only [List.mem_flatMap] at h
        refine .split hsplit (ih (s := headStatement letters s head tail) fun p hp =>
          h p ⟨_, by simp, hp⟩)
          (ih (s := tailStatement letters s head tail) fun p hp => h p ⟨_, by simp, hp⟩)
  · intro h
    generalize htext : s.text = text at h
    induction h generalizing s with
    | whole hmatches =>
      subst htext
      rw [expandTimes_of_splitText (splitText_eq_none hmatches)]
      intro p hp
      rw [List.mem_singleton.mp hp]
      exact hmatches
    | @split rounds text head tail hsplit _ _ ihhead ihtail =>
      subst htext
      have hstep : expandStatement letters dialect s =
          [headStatement letters s head tail, tailStatement letters s head tail] := by
        rw [expandStatement, hsplit]
      rw [expandTimes, hstep]
      intro p hp
      rcases List.mem_flatMap.mp hp with ⟨t, ht, hp⟩
      rcases List.mem_pair.mp ht with rfl | rfl
      · exact ihhead rfl p hp
      · exact ihtail rfl p hp

theorem slice_take {s t : Statement} {n : Nat} (hstart : t.startOffset = s.startOffset)
    (hstop : t.endOffset = s.startOffset + n) (hle : s.startOffset + n ≤ s.endOffset) :
    slice source t = (slice source s).take n := by
  rw [slice, slice, hstart, hstop, List.take_take]
  congr 1
  omega

theorem slice_drop {s t : Statement} {n : Nat}
    (hstart : t.startOffset = s.startOffset + n) (hstop : t.endOffset = s.endOffset) :
    slice source t = (slice source s).drop n := by
  rw [slice, slice, hstart, hstop, List.drop_take, List.drop_drop]
  congr 1
  omega

theorem length_slice_le (source : List Char) (s : Statement) :
    (slice source s).length ≤ s.endOffset - s.startOffset := List.length_take_le _ _

theorem StandsAt.occurs {front : Nat} (h : StandsAt source front s) : OccursInRange source s := by
  obtain ⟨-, lead, back, hslice, -⟩ := h
  exact ⟨lead, back, by rw [hslice, List.append_assoc]⟩

/-- Both halves of a statement stand where its text does. -/
theorem StandsAt.split {front : Nat} {head gap tail : List Char}
    (h : StandsAt source front s) (hsplit : splitText letters dialect s.text = some (head, tail))
    (hlocated : Located letters front s.text head gap tail) :
    StandsAt source front (headStatement letters s head tail) ∧
      StandsAt source (front + head.length + gap.length - splitAt letters s.text head tail)
        (tailStatement letters s head tail) := by
  obtain ⟨hle, lead, back, hslice, hfront⟩ := h
  obtain ⟨⟨after, htext⟩, hfrom, hto⟩ := hlocated
  obtain ⟨-, hhead, htail, hne⟩ := splitText_eq_some hsplit
  have hlength := length_slice_le source s
  rw [htext] at hslice
  rw [hslice] at hlength
  simp only [List.length_append] at hlength
  -- the gap is cut where the tail is found
  obtain ⟨n, hn⟩ : ∃ n, splitAt letters s.text head tail = front + head.length + n :=
    ⟨splitAt letters s.text head tail - (front + head.length), by omega⟩
  have hcut : splitAt letters s.text head tail = (lead ++ (head ++ gap.take n)).length := by
    simp only [List.length_append, List.length_take]
    omega
  have hparts : slice source s =
      (lead ++ (head ++ gap.take n)) ++
      (gap.drop n ++ (terminated s.text tail ++ (after ++ back))) := by
    rw [hslice]
    conv_lhs => rw [← List.take_append_drop n gap]
    simp only [List.append_assoc]
  have hsliceHead : slice source (headStatement letters s head tail) =
      (slice source s).take (splitAt letters s.text head tail) := slice_take rfl rfl (by omega)
  have hsliceTail : slice source (tailStatement letters s head tail) =
      (slice source s).drop (splitAt letters s.text head tail) := slice_drop rfl rfl
  constructor
  · refine ⟨Nat.le_add_right _ _, lead, gap.take n, ?_, hfront⟩
    rw [hsliceHead, hparts, hcut, List.take_left]
    rw [show (headStatement letters s head tail).text = head from rfl, hhead]
  · refine ⟨show s.startOffset + _ ≤ s.endOffset by omega, gap.drop n, after ++ back, ?_, ?_⟩
    · rw [hsliceTail, hparts, hcut, List.drop_left]
      rw [show (tailStatement letters s head tail).text = terminated s.text tail from rfl,
        strip_terminated htail hne]
    · rw [List.length_drop]
      omega

/-- Expanding a statement in its place is faithful. -/
theorem StandsAt.faithful {rounds front : Nat}
    (hstands : StandsAt source front s) (h : Splits letters dialect rounds front s.text) :
    Faithful letters dialect source s (expandTimes letters dialect rounds s) := by
  generalize htext : s.text = text at h
  induction h generalizing s with
  | whole hmatches =>
    subst htext
    rw [expandTimes_of_splitText (splitText_eq_none hmatches)]
    have hmem : ∀ p ∈ [s], p = s := fun p hp => List.mem_singleton.mp hp
    exact {
      tiles := .cons hstands.1 .nil
      content := congrArg content (List.append_nil s.text)
      occurs := fun p hp => hmem p hp ▸ hstands.occurs
      expanded := fun p hp => by rw [hmem p hp]; exact hmatches }
  | @split rounds front text head gap tail hsplit hlocated _ _ ihhead ihtail =>
    subst htext
    obtain ⟨hstandsHead, hstandsTail⟩ := hstands.split hsplit hlocated
    have hhead := ihhead hstandsHead rfl
    have htail := ihtail hstandsTail rfl
    have hparts : expandTimes letters dialect (rounds + 1) s =
        expandTimes letters dialect rounds (headStatement letters s head tail) ++
          expandTimes letters dialect rounds (tailStatement letters s head tail) := by
      rw [expandTimes, expandStatement, hsplit]
      simp only [List.flatMap_cons, List.flatMap_nil, List.append_nil]
    exact {
      tiles := hparts ▸ hhead.tiles.append htail.tiles
      content := content_expandTimes _ s
      occurs := fun p hp => by
        rw [hparts] at hp
        exact (List.mem_append.mp hp).elim (hhead.occurs p) (htail.occurs p)
      expanded := fun p hp => by
        rw [hparts] at hp
        exact (List.mem_append.mp hp).elim (hhead.expanded p) (htail.expanded p) }

end

theorem exists_of_forall₂ {α β : Type} {R : α → β → Prop} {xs : List α} {ys : List β}
    (h : List.Forall₂ R xs ys) {y : β} (hy : y ∈ ys) : ∃ x ∈ xs, R x y := by
  induction h with
  | nil => exact absurd hy List.not_mem_nil
  | cons hxy _ ih =>
    rcases List.mem_cons.mp hy with rfl | hy
    · exact ⟨_, List.mem_cons_self, hxy⟩
    · obtain ⟨x, hx, hR⟩ := ih hy
      exact ⟨x, List.mem_cons_of_mem _ hx, hR⟩

theorem Keeps.expandsWithin {letters : Letters} {dialect : DialectId} {source : List Char}
    {statements : List Statement} (h : Keeps letters dialect source statements
      (expandInlineControlStatements letters dialect statements)) :
    ∀ s ∈ statements, ExpandsWithin letters dialect 12 s.text := by
  intro s hs
  obtain ⟨parts, hresult, hparts⟩ := h
  refine expanded_iff.mp fun p hp => ?_
  have hmem : p ∈ parts.flatten := by
    rw [← hresult, expandInlineControlStatements, expandRounds_eq]
    exact List.mem_flatMap.mpr ⟨s, hs, hp⟩
  obtain ⟨part, hpart, hp⟩ := List.mem_flatten.mp hmem
  obtain ⟨t, -, hfaithful⟩ := exists_of_forall₂ hparts hpart
  exact hfaithful.expanded p hp

/-- **Inline expansion.** The statements returned are faithful to those given when every split finds
its tail in its own place and twelve rounds are enough; and they are not when twelve rounds are
not. -/
theorem expandInlineControlStatements_keeps (letters : Letters) (dialect : DialectId)
    (source : List Char) (statements : List Statement) :
    ((∀ s ∈ statements, InPlace letters dialect source s) →
      Keeps letters dialect source statements
        (expandInlineControlStatements letters dialect statements)) ∧
    (Keeps letters dialect source statements
        (expandInlineControlStatements letters dialect statements) →
      ∀ s ∈ statements, ExpandsWithin letters dialect 12 s.text) := by
  refine ⟨fun h => ⟨statements.map (expandTimes letters dialect 12), ?_,
    List.forall₂_map_right_iff.mpr (List.forall₂_same.mpr fun s hs => ?_)⟩,
    Keeps.expandsWithin⟩
  · rw [expandInlineControlStatements, expandRounds_eq, List.flatMap_def]
  · obtain ⟨front, hstands, hsplits⟩ := h s hs
    exact hstands.faithful hsplits

/-- A statement on a line of its own, with an indentation as long as the white space in front of its
tail. -/
def indentedReturn : Statement where
  text := "IF X = 1 THEN RETURN;".toList
  startLine := 1
  endLine := 1
  startOffset := 0
  endOffset := 22
  pieces := []

theorem splitText_indentedReturn : splitText Letters.ascii .db2SqlPl indentedReturn.text
    = some ("IF X = 1 THEN".toList, "RETURN".toList) := by
  decide +kernel

theorem inPlace_indentedReturn :
    InPlace Letters.ascii .db2SqlPl " IF X = 1 THEN RETURN;".toList indentedReturn := by
  refine ⟨1, ⟨by decide, [' '], [], by decide +kernel, rfl⟩, ?_⟩
  refine @Splits.split _ _ _ _ _ _ [' '] _ splitText_indentedReturn ?_ (.whole (by decide +kernel))
    (.whole (by decide +kernel))
  exact ⟨⟨[], by decide +kernel⟩, by decide +kernel, by decide +kernel⟩

theorem expandInlineControlStatements_keeps_indented :
    Keeps Letters.ascii .db2SqlPl " IF X = 1 THEN RETURN;".toList [indentedReturn]
      (expandInlineControlStatements Letters.ascii .db2SqlPl [indentedReturn]) :=
  (expandInlineControlStatements_keeps Letters.ascii .db2SqlPl " IF X = 1 THEN RETURN;".toList
    [indentedReturn]).1 fun s hs => by
      rw [List.mem_singleton.mp hs]
      exact inPlace_indentedReturn

/-- The text of the tail stands in the condition too. -/
def newReturn : Statement where
  text := "IF NEW_RETURN = 1 THEN RETURN;".toList
  startLine := 1
  endLine := 1
  startOffset := 0
  endOffset := 30
  pieces := []

/-- The head of the statement is given the range of `IF NEW_`. -/
theorem expandInlineControlStatements_not_keeps :
    ¬ ∀ (dialect : DialectId) (source : List Char) (statements : List Statement),
      (∀ s ∈ statements, s.startOffset ≤ s.endOffset ∧
        Text.strip (slice source s) = Text.strip s.text) →
      Keeps Letters.ascii dialect source statements
        (expandInlineControlStatements Letters.ascii dialect statements) := by
  intro h
  obtain ⟨parts, hresult, hparts⟩ := h .db2SqlPl newReturn.text [newReturn] fun s hs => by
    rw [List.mem_singleton.mp hs]
    exact ⟨by decide, by decide +kernel⟩
  have hexpanded : expandInlineControlStatements Letters.ascii .db2SqlPl [newReturn] =
      [{ newReturn with text := "IF NEW_RETURN = 1 THEN".toList, endOffset := 7 },
        { newReturn with text := "RETURN;".toList, startOffset := 7 }] := by
    decide +kernel
  have hmem : { newReturn with text := "IF NEW_RETURN = 1 THEN".toList, endOffset := 7 } ∈
      parts.flatten := by
    rw [← hresult, hexpanded]
    exact List.mem_cons_self
  obtain ⟨part, hpart, hp⟩ := List.mem_flatten.mp hmem
  obtain ⟨s, -, hfaithful⟩ := exists_of_forall₂ hparts hpart
  have hlength := (hfaithful.occurs _ hp).length_le
  revert hlength
  decide +kernel

end AtlasDb.Dialects.Inline
