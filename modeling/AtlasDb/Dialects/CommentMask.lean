import AtlasDb.Dialects.Comments

/-!
# What the comment mask blanks

A text is divided into quoted strings, dollar-quoted strings, comments and single characters
(`Divides`). `_mask_comments` blanks exactly the comments of a text in which no comment begins with
`/*/` and no comment that is not closed ends in anything but white space (`mask_exact`): it takes
the star of `/*/` for the first character of the closing `*/` too, and leaves the last character of
a comment that is not closed.
-/

namespace AtlasDb.Dialects

open Core

/-! ## Lexical structure -/

/-- A part of a text. A doubled quote is taken for the end of one string and the beginning of
another one. -/
inductive Segment where
  | plain (c : Char)
  | quoted (text : List Char)
  | dollarQuoted (text : List Char)
  | lineComment (body : List Char)
  | blockComment (body : List Char)
  | openComment (body : List Char)

/-- The segment as it is written. -/
def Segment.text : Segment → List Char
  | .plain c => [c]
  | .quoted text => text
  | .dollarQuoted text => text
  | .lineComment body => '-' :: '-' :: body
  | .blockComment body => '/' :: '*' :: (body ++ ['*', '/'])
  | .openComment body => '/' :: '*' :: body

/-- The segment with a blank for every character of a comment but the line breaks. -/
def Segment.masked : Segment → List Char
  | .plain c => [c]
  | .quoted text => text
  | .dollarQuoted text => text
  | .lineComment body => ('-' :: '-' :: body).map blanked
  | .blockComment body => ('/' :: '*' :: (body ++ ['*', '/'])).map blanked
  | .openComment body => ('/' :: '*' :: body).map blanked

/-- `mark` occurs in the text at its end only. -/
def OnlyAtEnd (mark text : List Char) : Prop := ∀ u v, text = u ++ mark ++ v → v = []

def Absent (mark text : List Char) : Prop := ∀ u v, text ≠ u ++ mark ++ v

def quotes : List Char := ['\'', '"', '`']

def isTagChar (c : Char) : Bool := c.isAlphanum || c = '_'

/-- The delimiter of a dollar-quoted string. -/
def dollarMark (name : List Char) : List Char := '$' :: (name ++ ['$'])

/-- The segments of a text, read from left to right. -/
inductive Divides : List Char → List Segment → Prop where
  | nil : Divides [] []
  | plain {c : Char} {rest : List Char} {segments : List Segment} (hquote : c ∉ quotes)
      (hline : ¬(c = '-' ∧ rest.head? = some '-')) (hblock : ¬(c = '/' ∧ rest.head? = some '*'))
      (htag : ¬∃ name rest', c :: rest = dollarMark name ++ rest' ∧ ∀ d ∈ name, isTagChar d = true)
      (h : Divides rest segments) : Divides (c :: rest) (.plain c :: segments)
  | quoted {q : Char} {inner rest : List Char} {segments : List Segment} (hq : q ∈ quotes)
      (hinner : q ∉ inner) (h : Divides rest segments) :
      Divides (q :: (inner ++ q :: rest)) (.quoted (q :: (inner ++ [q])) :: segments)
  | openQuoted {q : Char} {inner : List Char} (hq : q ∈ quotes) (hinner : q ∉ inner) :
      Divides (q :: inner) [.quoted (q :: inner)]
  | dollar {name body rest : List Char} {segments : List Segment}
      (hname : ∀ c ∈ name, isTagChar c = true)
      (hfirst : OnlyAtEnd (dollarMark name) (body ++ dollarMark name)) (h : Divides rest segments) :
      Divides (dollarMark name ++ (body ++ (dollarMark name ++ rest)))
        (.dollarQuoted (dollarMark name ++ (body ++ dollarMark name)) :: segments)
  | openDollar {name body : List Char} (hname : ∀ c ∈ name, isTagChar c = true)
      (habsent : Absent (dollarMark name) body) :
      Divides (dollarMark name ++ body) [.dollarQuoted (dollarMark name ++ body)]
  | line {body rest : List Char} {segments : List Segment} (hbody : '\n' ∉ body)
      (hrest : ∀ c ∈ rest.head?, c = '\n') (h : Divides rest segments) :
      Divides ('-' :: '-' :: (body ++ rest)) (.lineComment body :: segments)
  | block {body rest : List Char} {segments : List Segment}
      (hfirst : OnlyAtEnd ['*', '/'] (body ++ ['*', '/'])) (h : Divides rest segments) :
      Divides ('/' :: '*' :: (body ++ '*' :: '/' :: rest)) (.blockComment body :: segments)
  | openBlock {body : List Char} (habsent : Absent ['*', '/'] body) :
      Divides ('/' :: '*' :: body) [.openComment body]

variable {segments : List Segment}

theorem Divides.text {text : List Char} (h : Divides text segments) :
    segments.flatMap Segment.text = text := by
  induction h with
  | nil => rfl
  | _ => simp_all [Segment.text]

/-! ## First occurrences -/

theorem OnlyAtEnd.tail {mark text : List Char} {c : Char} (h : OnlyAtEnd mark (c :: text)) :
    OnlyAtEnd mark text := fun u v heq => h (c :: u) v (by rw [heq]; rfl)

theorem Absent.tail {mark text : List Char} {c : Char} (h : Absent mark (c :: text)) :
    Absent mark text := fun u v heq => h (c :: u) v (by rw [heq]; rfl)

theorem exists_first {mark text : List Char} (hmark : mark ≠ []) (h : ¬ Absent mark text) :
    ∃ body rest, text = body ++ (mark ++ rest) ∧ OnlyAtEnd mark (body ++ mark) := by
  induction text with
  | nil =>
    refine absurd (fun u v heq => ?_) h
    simp [hmark] at heq
  | cons c text ih =>
    by_cases hstart : ∃ rest, c :: text = mark ++ rest
    · obtain ⟨rest, hrest⟩ := hstart
      refine ⟨[], rest, hrest, fun u v heq => ?_⟩
      have hlength := congrArg List.length heq
      simp only [List.nil_append, List.length_append] at hlength
      exact List.length_eq_zero_iff.mp (by omega)
    · have hlater : ¬ Absent mark text := by
        intro habsent
        apply h
        intro u v heq
        cases u with
        | nil => exact hstart ⟨v, heq⟩
        | cons d u => exact habsent u v (List.cons.inj heq).2
      obtain ⟨body, rest, hsplit, hfirst⟩ := ih hlater
      refine ⟨c :: body, rest, by rw [hsplit]; rfl, fun u v heq => ?_⟩
      cases u with
      | nil =>
        -- an occurrence at the very beginning is one of the whole text
        exfalso
        apply hstart
        refine ⟨v ++ rest, ?_⟩
        rw [hsplit, ← List.append_assoc, ← List.cons_append, ← List.cons_append, heq]
        simp
      | cons d u => exact hfirst u v (List.cons.inj heq).2

/-! ## Every text is divided -/

/-- Every text has such a division. -/
theorem exists_divides (text : List Char) : ∃ segments, Divides text segments := by
  induction hlength : text.length using Nat.strong_induction_on generalizing text with
  | _ n ih =>
    have hrest : ∀ rest : List Char, rest.length < text.length →
      ∃ segments, Divides rest segments :=
      fun rest hlt => ih rest.length (hlength ▸ hlt) rest rfl
    cases text with
    | nil => exact ⟨[], .nil⟩
    | cons c text =>
      by_cases hquote : c ∈ quotes
      · by_cases hclosed : c ∈ text
        · obtain ⟨inner, rest, rfl, hinner⟩ := List.eq_append_cons_of_mem hclosed
          obtain ⟨segments, h⟩ := hrest rest (by simp; omega)
          exact ⟨_, .quoted hquote hinner h⟩
        · exact ⟨_, .openQuoted hquote hclosed⟩
      by_cases hline : c = '-' ∧ text.head? = some '-'
      · obtain ⟨rfl, hhead⟩ := hline
        obtain ⟨text, rfl⟩ := List.head?_eq_some_iff.mp hhead
        have hsplit := List.takeWhile_append_dropWhile (p := fun c => decide (c ≠ '\n')) (l := text)
        obtain ⟨segments, h⟩ := hrest (text.dropWhile fun c => decide (c ≠ '\n')) (by
          have := (List.dropWhile_sublist (l := text) fun c => decide (c ≠ '\n')).length_le
          simp only [List.length_cons]
          omega)
        rw [← hsplit]
        refine ⟨_, .line (fun hmem => ?_) (fun d hd => ?_) h⟩
        · simpa using List.mem_takeWhile_imp hmem
        · have hstop := List.head?_dropWhile_not (fun c => decide (c ≠ '\n')) text
          rw [Option.mem_def.mp hd] at hstop
          simpa using hstop
      by_cases hblock : c = '/' ∧ text.head? = some '*'
      · obtain ⟨rfl, hhead⟩ := hblock
        obtain ⟨text, rfl⟩ := List.head?_eq_some_iff.mp hhead
        by_cases hclosed : Absent ['*', '/'] text
        · exact ⟨_, .openBlock hclosed⟩
        · obtain ⟨body, rest, rfl, hfirst⟩ := exists_first (by simp) hclosed
          obtain ⟨segments, h⟩ := hrest rest (by simp; omega)
          exact ⟨_, .block hfirst h⟩
      by_cases htag : ∃ name rest', c :: text = dollarMark name ++ rest' ∧
          ∀ d ∈ name, isTagChar d = true
      · obtain ⟨name, rest', heq, hname⟩ := htag
        rw [heq] at hrest ⊢
        by_cases hclosed : Absent (dollarMark name) rest'
        · exact ⟨_, .openDollar hname hclosed⟩
        · obtain ⟨body, rest, rfl, hfirst⟩ := exists_first (by simp [dollarMark]) hclosed
          obtain ⟨segments, h⟩ := hrest rest (by simp [dollarMark]; omega)
          exact ⟨_, .dollar hname hfirst h⟩
      · obtain ⟨segments, h⟩ := hrest text (by simp)
        exact ⟨_, .plain hquote hline hblock htag h⟩

/-! ## The mask of a segment -/

theorem blanked_of_ne {c : Char} (h : c ≠ '\n') : blanked c = ' ' := if_neg h

theorem maskFrom_plain_quote {q : Char} (hq : q ∈ quotes) (rest : List Char) :
    maskFrom .plain (q :: rest) = q :: maskFrom (.quote q) rest := by
  rw [maskFrom]
  exact if_pos hq

theorem maskFrom_quote_closed {q : Char} {inner : List Char} (hq : q ∈ quotes) (hinner : q ∉ inner)
    (rest : List Char) :
    maskFrom (.quote q) (inner ++ q :: rest) = inner ++ q :: maskFrom .plain rest := by
  induction inner with
  | nil =>
    rw [List.nil_append, List.nil_append, maskFrom, if_pos rfl]
    split
    · next hdoubled =>
        -- inside the string the two quotes are one character, outside they end and begin one
        obtain ⟨rest, rfl⟩ := List.head?_eq_some_iff.mp hdoubled
        rw [maskFrom_plain_quote hq, maskFrom]
    · rfl
  | cons c inner ih =>
    rw [List.mem_cons, not_or] at hinner
    rw [List.cons_append, maskFrom, if_neg (Ne.symm hinner.1), ih hinner.2]
    rfl

theorem maskFrom_quote_open {q : Char} {inner : List Char} (hinner : q ∉ inner) :
    maskFrom (.quote q) inner = inner := by
  induction inner with
  | nil => rfl
  | cons c inner ih =>
    rw [List.mem_cons, not_or] at hinner
    rw [maskFrom, if_neg (Ne.symm hinner.1), ih hinner.2]

theorem maskFrom_dollar_closed {mark body : List Char} (hmark : 2 ≤ mark.length)
    (hfirst : OnlyAtEnd mark (body ++ mark)) (rest : List Char) :
    maskFrom (.dollar mark) (body ++ (mark ++ rest)) = body ++ (mark ++ maskFrom .plain rest) := by
  induction body with
  | nil =>
    cases mark with
    | nil => exact absurd hmark (by simp)
    | cons d mark =>
      rw [List.length_cons] at hmark
      rw [List.nil_append, List.nil_append, List.cons_append, maskFrom, if_pos (by simp),
        maskFrom_copy _ _ _ _ (by rw [List.length_cons]; omega)]
      rfl
  | cons c body ih =>
    have hnot : ¬ mark.isPrefixOf (c :: (body ++ (mark ++ rest))) := by
      intro hstart
      obtain ⟨v, hv⟩ := List.isPrefixOf_iff_prefix.mp hstart
      have hlong : mark <+: c :: (body ++ mark) := by
        refine List.prefix_of_prefix_length_le ⟨v, hv⟩ ⟨rest, by simp⟩ ?_
        simp only [List.length_cons, List.length_append]
        omega
      obtain ⟨w, hw⟩ := hlong
      have hnil := hfirst [] w (by rw [List.nil_append, hw]; rfl)
      rw [hnil, List.append_nil] at hw
      have hlength := congrArg List.length hw
      simp only [List.length_cons, List.length_append] at hlength
      omega
    rw [List.cons_append, maskFrom, if_neg hnot, ih hfirst.tail]
    rfl

theorem maskFrom_dollar_open {mark body : List Char} (habsent : Absent mark body) :
    maskFrom (.dollar mark) body = body := by
  induction body with
  | nil => rfl
  | cons c body ih =>
    have hnot : ¬ mark.isPrefixOf (c :: body) := by
      intro hstart
      obtain ⟨v, hv⟩ := List.isPrefixOf_iff_prefix.mp hstart
      exact habsent [] v (by rw [List.nil_append, hv])
    rw [maskFrom, if_neg hnot, ih habsent.tail]

theorem maskFrom_line {body rest : List Char} (hbody : '\n' ∉ body)
    (hrest : ∀ c ∈ rest.head?, c = '\n') :
    maskFrom .line (body ++ rest) = body.map blanked ++ maskFrom .plain rest := by
  induction body with
  | nil =>
    cases rest with
    | nil => rfl
    | cons c rest =>
      obtain rfl := hrest c rfl
      rw [List.nil_append, List.map_nil, List.nil_append, maskFrom_plain_of_space (.inr rfl),
        maskFrom, if_pos rfl]
  | cons c body ih =>
    rw [List.mem_cons, not_or] at hbody
    rw [List.cons_append, maskFrom, if_neg (Ne.symm hbody.1), ih hbody.2, List.map_cons,
      blanked_of_ne (Ne.symm hbody.1)]
    rfl

theorem maskFrom_block_closed {body : List Char}
    (hfirst : OnlyAtEnd ['*', '/'] (body ++ ['*', '/'])) (rest : List Char) :
    maskFrom .block (body ++ '*' :: '/' :: rest) =
      body.map blanked ++ ' ' :: ' ' :: maskFrom .plain rest := by
  induction body with
  | nil => rfl
  | cons c body ih =>
    have hgoes : ¬(c = '*' ∧ (body ++ '*' :: '/' :: rest).head? = some '/') := by
      rintro ⟨rfl, hhead⟩
      cases body with
      | nil => exact absurd hhead (by simp)
      | cons d body =>
        obtain rfl : d = '/' := Option.some.inj hhead
        exact absurd (hfirst [] (body ++ ['*', '/']) rfl) (by simp)
    rw [List.cons_append, maskFrom, if_neg (by simp), if_neg hgoes, ih hfirst.tail]
    rfl

theorem maskFrom_block_open {body : List Char} {c : Char}
    (habsent : Absent ['*', '/'] (body ++ [c])) :
    maskFrom .block (body ++ [c]) = body.map blanked ++ [c] := by
  induction body with
  | nil => rfl
  | cons d body ih =>
    have hgoes : ¬(d = '*' ∧ (body ++ [c]).head? = some '/') := by
      rintro ⟨rfl, hhead⟩
      obtain ⟨v, hv⟩ := List.head?_eq_some_iff.mp hhead
      exact habsent [] v (by rw [List.cons_append, hv]; rfl)
    rw [List.cons_append, maskFrom, if_neg (by simp), if_neg hgoes, ih habsent.tail]
    rfl

theorem maskFrom_plain_block (rest : List Char) :
    maskFrom .plain ('/' :: '*' :: rest) = ' ' :: maskFrom .block ('*' :: rest) := by
  rw [maskFrom, if_neg (by decide), if_neg (by simp), if_pos ⟨rfl, rfl⟩]

theorem maskFrom_plain_blockSlash (rest : List Char) :
    maskFrom .plain ('/' :: '*' :: '/' :: rest) = ' ' :: ' ' :: ' ' :: maskFrom .plain rest := by
  rw [maskFrom_plain_block, maskFrom, if_neg (by simp), if_pos ⟨rfl, rfl⟩, maskFrom]

theorem maskFrom_plain_dollarMark {name : List Char} (hname : ∀ c ∈ name, isTagChar c = true)
    (rest : List Char) :
    maskFrom .plain (dollarMark name ++ rest) =
      dollarMark name ++ maskFrom (.dollar (dollarMark name)) rest := by
  have htag : dollarTag ('$' :: ((name ++ ['$']) ++ rest)) = some (dollarMark name) :=
    dollarTag_eq_some.mpr ⟨name, rest, by simp, hname, rfl⟩
  show maskFrom .plain ('$' :: ((name ++ ['$']) ++ rest)) = _
  rw [maskFrom, if_neg (by decide), if_neg (by simp), if_neg (by simp), htag]
  dsimp only
  rw [maskFrom_copy _ _ _ _ (by simp [dollarMark])]
  rfl

/-! ## Comments the mask gets right -/

/-- The segment is not a comment that begins with `/*/`, nor one that is not closed and ends in
anything but a blank or a line break. -/
def Segment.Clean : Segment → Prop
  | .blockComment body => body.head? ≠ some '/'
  | .openComment body => body.head? ≠ some '/' ∧ ∃ before c, body = before ++ [c] ∧ blanked c = c
  | _ => True

theorem onlyAtEnd_star {body : List Char} (hfirst : OnlyAtEnd ['*', '/'] (body ++ ['*', '/']))
    (hhead : body.head? ≠ some '/') : OnlyAtEnd ['*', '/'] ('*' :: body ++ ['*', '/']) := by
  intro u v heq
  cases u with
  | nil =>
    cases body with
    | nil => simp at heq
    | cons d body =>
      simp only [List.cons_append, List.nil_append, List.cons.injEq, true_and] at heq
      exact absurd (congrArg some heq.1) hhead
  | cons d u => exact hfirst u v (List.cons.inj heq).2

theorem absent_star {body : List Char} (habsent : Absent ['*', '/'] body)
    (hhead : body.head? ≠ some '/') : Absent ['*', '/'] ('*' :: body) := by
  intro u v heq
  cases u with
  | nil =>
    apply hhead
    rw [(List.cons.inj heq).2]
    rfl
  | cons d u => exact habsent u v (List.cons.inj heq).2

/-- **Step lemma**: a clean segment is masked as it should be, and the text behind it is read on its
own. -/
theorem Divides.mask_step {text : List Char} {s : Segment}
    (h : Divides text (s :: segments)) (hclean : s.Clean) :
    ∃ rest, Divides rest segments ∧ text = s.text ++ rest ∧
      maskFrom .plain text = s.masked ++ maskFrom .plain rest := by
  cases h with
  | @plain c rest _ hquote hline hblock htag h =>
    refine ⟨rest, h, rfl, ?_⟩
    have hnone : dollarTag (c :: rest) = none := by
      by_contra hne
      obtain ⟨tag, htag'⟩ := Option.ne_none_iff_exists'.mp hne
      obtain ⟨name, rest', heq, hname, -⟩ := dollarTag_eq_some.mp htag'
      exact htag ⟨name, rest', by rw [heq, dollarMark]; simp, hname⟩
    rw [maskFrom_plain_of_ordinary hquote hline hblock hnone]
    rfl
  | @quoted q inner rest _ hq hinner h =>
    refine ⟨rest, h, by simp [Segment.text], ?_⟩
    rw [maskFrom_plain_quote hq, maskFrom_quote_closed hq hinner, Segment.masked]
    simp
  | @openQuoted q inner hq hinner =>
    refine ⟨[], .nil, by simp [Segment.text], ?_⟩
    rw [maskFrom_plain_quote hq, maskFrom_quote_open hinner, Segment.masked, maskFrom,
      List.append_nil]
  | @dollar name body rest _ hname hfirst h =>
    refine ⟨rest, h, by simp [Segment.text], ?_⟩
    rw [maskFrom_plain_dollarMark hname, maskFrom_dollar_closed (by simp [dollarMark]) hfirst,
      Segment.masked]
    simp
  | @openDollar name body hname habsent =>
    refine ⟨[], .nil, by simp [Segment.text], ?_⟩
    rw [maskFrom_plain_dollarMark hname, maskFrom_dollar_open habsent, Segment.masked, maskFrom,
      List.append_nil]
  | @line body rest _ hbody hrest h =>
    refine ⟨rest, h, rfl, ?_⟩
    have hopening : maskFrom .plain ('-' :: '-' :: (body ++ rest)) =
        ' ' :: ' ' :: maskFrom .line (body ++ rest) := by
      rw [maskFrom, if_neg (by decide), if_pos ⟨rfl, rfl⟩, maskFrom, if_neg (by decide)]
    rw [hopening, maskFrom_line hbody hrest]
    rfl
  | @block body rest _ hfirst h =>
    refine ⟨rest, h, by simp [Segment.text], ?_⟩
    have hmask := maskFrom_block_closed (onlyAtEnd_star hfirst hclean) rest
    rw [List.cons_append] at hmask
    rw [maskFrom_plain_block, hmask, Segment.masked]
    simp [blanked]
  | @openBlock body habsent =>
    obtain ⟨hhead, before, c, rfl, hc⟩ := hclean
    refine ⟨[], .nil, by simp [Segment.text], ?_⟩
    have hmask : maskFrom .block ('*' :: before ++ [c]) = _ :=
      maskFrom_block_open (absent_star habsent hhead)
    rw [List.cons_append] at hmask
    rw [maskFrom_plain_block, hmask, Segment.masked, maskFrom]
    simp [hc]
    rfl

/-- **Run lemma**: so are the clean segments a text begins with. -/
theorem Divides.mask_run {before after : List Segment} {text : List Char}
    (h : Divides text (before ++ after)) (hclean : ∀ s ∈ before, s.Clean) :
    ∃ rest, Divides rest after ∧
      maskFrom .plain text = before.flatMap Segment.masked ++ maskFrom .plain rest := by
  induction before generalizing text with
  | nil => exact ⟨text, h, rfl⟩
  | cons s before ih =>
    rw [List.forall_mem_cons] at hclean
    obtain ⟨rest, hrest, -, hmask⟩ := h.mask_step hclean.1
    obtain ⟨rest', hrest', hmask'⟩ := ih hrest hclean.2
    refine ⟨rest', hrest', ?_⟩
    rw [hmask, hmask', List.flatMap_cons, List.append_assoc]

/-! ## Line breaks -/

/-- The mode has come about by reading: the second character of a closing `*/` is a slash, and what
is copied is not in a comment. -/
def MaskMode.Arises : MaskMode → List Char → Prop
  | .blockEnd, text => text.head? = some '/'
  | .copy _ next, _ => next = .plain ∨ (∃ q, next = .quote q) ∨ ∃ tag, next = .dollar tag
  | _, _ => True

theorem MaskMode.arises_next {next : MaskMode}
    (h : next = .plain ∨ (∃ q, next = .quote q) ∨ ∃ tag, next = .dollar tag) (text : List Char) :
    next.Arises text := by
  obtain rfl | ⟨q, rfl⟩ | ⟨tag, rfl⟩ := h
  · trivial
  · trivial
  · trivial

/-- Masking goes on character by character. -/
theorem maskFrom_arises {mode : MaskMode} {c : Char} {cs : List Char} (h : mode.Arises (c :: cs)) :
    ∃ d mode', maskFrom mode (c :: cs) = d :: maskFrom mode' cs ∧ mode'.Arises cs ∧
      (c = '\n' → d = '\n') := by
  cases mode with
  | plain =>
    rw [maskFrom]
    split
    · exact ⟨c, _, rfl, trivial, id⟩
    split
    · next hline =>
        exact ⟨' ', _, rfl, trivial, fun hc => absurd (hc.symm.trans hline.1) (by decide)⟩
    split
    · next hblock =>
        exact ⟨' ', _, rfl, trivial, fun hc => absurd (hc.symm.trans hblock.1) (by decide)⟩
    split
    · exact ⟨c, _, rfl, .inr (.inr ⟨_, rfl⟩), id⟩
    · exact ⟨c, _, rfl, trivial, id⟩
  | quote q =>
    rw [maskFrom]
    split
    · split
      · exact ⟨c, _, rfl, .inr (.inl ⟨_, rfl⟩), id⟩
      · exact ⟨c, _, rfl, trivial, id⟩
    · exact ⟨c, _, rfl, trivial, id⟩
  | dollar tag =>
    rw [maskFrom]
    split
    · exact ⟨c, _, rfl, .inl rfl, id⟩
    · exact ⟨c, _, rfl, trivial, id⟩
  | copy n next =>
    cases n with
    | zero => exact ⟨c, next, by rw [maskFrom], MaskMode.arises_next h cs, id⟩
    | succ n => exact ⟨c, .copy n next, by rw [maskFrom], h, id⟩
  | line =>
    rw [maskFrom]
    split
    · exact ⟨c, _, rfl, trivial, id⟩
    · next hc => exact ⟨' ', _, rfl, trivial, fun hnewline => absurd hnewline hc⟩
  | block =>
    rw [maskFrom]
    split
    · next hlast =>
        subst hlast
        exact ⟨c, .plain, by rw [maskFrom], trivial, id⟩
    split
    · next hclose =>
        exact ⟨' ', _, rfl, hclose.2, fun hc => absurd (hc.symm.trans hclose.1) (by decide)⟩
    · exact ⟨blanked c, _, rfl, trivial, fun hc => by rw [hc]; rfl⟩
  | blockEnd =>
    rw [maskFrom]
    exact ⟨' ', _, rfl, trivial, fun hc => absurd (hc.symm.trans (Option.some.inj h)) (by decide)⟩

theorem maskFrom_newline {mode : MaskMode} {text : List Char} (h : mode.Arises text) {i : Nat}
    (hi : text[i]? = some '\n') : (maskFrom mode text)[i]? = some '\n' := by
  induction text generalizing mode i with
  | nil => exact absurd hi (by simp)
  | cons c cs ih =>
    obtain ⟨d, mode', hmask, harises, hnewline⟩ := maskFrom_arises h
    rw [hmask]
    cases i with
    | zero => rw [List.getElem?_cons_zero, hnewline (Option.some.inj hi)]
    | succ i =>
      rw [List.getElem?_cons_succ]
      exact ih harises hi

theorem maskComments_newlines (text : List Char) (i : Nat) :
    (maskComments text)[i]? = some '\n' ↔ text[i]? = some '\n' := by
  constructor
  · intro h
    rcases maskFrom_char h with h | h
    · exact h
    · exact absurd h (by decide)
  · exact fun h => @maskFrom_newline .plain text trivial i h

/-! ## Exactness -/

/-- The mask blanks the comments and nothing else. -/
structure MasksExactly (text : List Char) (segments : List Segment) : Prop where
  length : (maskComments text).length = text.length
  newlines : ∀ i : Nat, (maskComments text)[i]? = some '\n' ↔ text[i]? = some '\n'
  idempotent : maskComments (maskComments text) = maskComments text
  exact : maskComments text = segments.flatMap Segment.masked

/-- The first character that is neither a blank nor a line break begins a comment. -/
def HiddenByComment (text : List Char) : Prop :=
  ∀ blanks c rest, text = blanks ++ c :: rest → (∀ b ∈ blanks, blanked b = b) → blanked c ≠ c →
    (c = '-' ∧ rest.head? = some '-') ∨ (c = '/' ∧ rest.head? = some '*')

/-- The segment is clean, or it is a comment that begins with `/*/` and goes on with white space and
then with what would be a comment outside of it. -/
def Segment.NearlyClean : Segment → Prop
  | .blockComment ('/' :: body) => HiddenByComment (body ++ ['*', '/'])
  | .openComment ('/' :: body) => HiddenByComment body
  | s => s.Clean

theorem nearlyClean_of_clean {s : Segment} (h : s.Clean) : s.NearlyClean := by
  unfold Segment.NearlyClean
  split
  · exact absurd rfl h
  · exact absurd rfl h.1
  · exact h

theorem maskFrom_plain_blanks {blanks : List Char} (h : ∀ b ∈ blanks, blanked b = b)
    (rest : List Char) : maskFrom .plain (blanks ++ rest) = blanks ++ maskFrom .plain rest := by
  induction blanks with
  | nil => rfl
  | cons b blanks ih =>
    rw [List.forall_mem_cons] at h
    have hb : b = ' ' ∨ b = '\n' := by
      have := blanked_eq b
      rwa [h.1] at this
    rw [List.cons_append, maskFrom_plain_of_space hb, ih h.2]
    rfl

theorem maskFrom_plain_head {c : Char} {cs : List Char} (hline : ¬(c = '-' ∧ cs.head? = some '-'))
    (hblock : ¬(c = '/' ∧ cs.head? = some '*')) : (maskFrom .plain (c :: cs)).head? = some c := by
  by_cases hquote : c ∈ quotes
  · rw [maskFrom_plain_quote hquote]
    rfl
  cases htag : dollarTag (c :: cs) with
  | none =>
    rw [maskFrom_plain_of_ordinary hquote hline hblock htag]
    rfl
  | some tag =>
    rw [maskFrom, if_neg (show ¬c ∈ ['\'', '"', '`'] from hquote), if_neg hline,
      if_neg hblock, htag]
    rfl

theorem hidden_of_mask {text rest masked : List Char}
    (hend : rest = [] ∨ ∃ body, text = body ++ ['*', '/'])
    (h : maskFrom .plain (text ++ rest) = text.map blanked ++ masked) : HiddenByComment text := by
  rintro blanks c after rfl hblanks hc
  by_contra hno
  have hhead : after.head? = (after ++ rest).head? := by
    cases after with
    | cons d after => rfl
    | nil =>
      rcases hend with rfl | ⟨body, hbody⟩
      · rfl
      · -- the star of the closing is no blank
        exfalso
        rw [show body ++ ['*', '/'] = (body ++ ['*']) ++ ['/'] by simp] at hbody
        have hblank := hblanks '*' (by rw [(List.append_inj' hbody rfl).1]; simp)
        exact absurd hblank (by decide)
  rw [hhead, not_or] at hno
  have hstays := maskFrom_plain_head hno.1 hno.2
  rw [List.append_assoc, maskFrom_plain_blanks hblanks, List.map_append, List.append_assoc,
    List.map_congr_left hblanks, List.map_id', List.append_cancel_left_eq] at h
  rw [← List.cons_append, h] at hstays
  exact hc (Option.some.inj hstays)

/-- What the mask may leave of a segment. -/
theorem Divides.nearlyClean {text masked : List Char} {s : Segment}
    (h : Divides text (s :: segments)) (hmask : maskFrom .plain text = s.masked ++ masked)
    (hmasked : segments = [] → masked = []) : s.NearlyClean := by
  cases h with
  | plain => trivial
  | quoted => trivial
  | openQuoted => trivial
  | dollar => trivial
  | openDollar => trivial
  | line => trivial
  | @block body rest _ hfirst h =>
    by_cases hhead : body.head? = some '/'
    · obtain ⟨body, rfl⟩ := List.head?_eq_some_iff.mp hhead
      apply hidden_of_mask (.inr ⟨body, rfl⟩)
      rw [List.cons_append, maskFrom_plain_blockSlash, Segment.masked] at hmask
      simpa [blanked] using hmask
    · exact nearlyClean_of_clean hhead
  | @openBlock body habsent =>
    obtain rfl := hmasked rfl
    rw [List.append_nil, Segment.masked] at hmask
    by_cases hhead : body.head? = some '/'
    · obtain ⟨body, rfl⟩ := List.head?_eq_some_iff.mp hhead
      refine @hidden_of_mask body [] [] (.inl rfl) ?_
      rw [maskFrom_plain_blockSlash] at hmask
      simpa [blanked] using hmask
    · apply nearlyClean_of_clean
      refine ⟨hhead, ?_⟩
      rcases List.eq_nil_or_concat body with rfl | ⟨before, c, rfl⟩
      · -- the star of the opening is the last character of the text
        exact absurd hmask (by decide)
      · rw [List.concat_eq_append] at habsent hhead hmask ⊢
        have hopen : maskFrom .block ('*' :: before ++ [c]) = _ :=
          maskFrom_block_open (absent_star habsent hhead)
        rw [List.cons_append] at hopen
        rw [maskFrom_plain_block, hopen] at hmask
        refine ⟨before, c, rfl, ?_⟩
        have hparts : before.map blanked ++ [c] = before.map blanked ++ [blanked c] := by
          simpa [blanked] using hmask
        exact (List.cons.inj (List.append_cancel_left hparts)).1.symm

theorem masksExactly_of_eq {text : List Char}
    (h : maskComments text = segments.flatMap Segment.masked) : MasksExactly text segments where
  length := maskFrom_length _ text
  newlines := maskComments_newlines text
  idempotent := maskComments_maskComments text
  exact := h

/-- **Comment masking**: where every comment is clean, exactly the comments are blanked; and where
exactly the comments are blanked, the first comment that is not clean is nearly clean. -/
theorem mask_exact (text : List Char) (segments : List Segment) (hdivides : Divides text segments) :
    ((∀ s ∈ segments, s.Clean) → MasksExactly text segments) ∧
      ∀ before s after, segments = before ++ s :: after → (∀ p ∈ before, p.Clean) →
        MasksExactly text segments → s.NearlyClean := by
  constructor
  · intro hclean
    apply masksExactly_of_eq
    rw [← List.append_nil segments] at hdivides
    obtain ⟨rest, hrest, hmask⟩ := hdivides.mask_run hclean
    cases hrest
    rw [maskComments, hmask, maskFrom, List.append_nil]
  · rintro before s after rfl hclean hexact
    obtain ⟨rest, hrest, hmask⟩ := hdivides.mask_run hclean
    have hequal := hexact.exact
    rw [maskComments, hmask, List.flatMap_append, List.flatMap_cons] at hequal
    apply hrest.nearlyClean (List.append_cancel_left hequal)
    rintro rfl
    rfl

theorem mask_exact_plain : MasksExactly ['a', '-', '-', 'b'] [.plain 'a', .lineComment ['b']] := by
  have hcomment : Divides ['-', '-', 'b'] [.lineComment ['b']] :=
    @Divides.line ['b'] [] [] (by decide) nofun .nil
  have hdivides : Divides ['a', '-', '-', 'b'] [.plain 'a', .lineComment ['b']] := by
    refine .plain (by decide) (by decide) (by decide) ?_ hcomment
    rintro ⟨name, rest, heq, -⟩
    exact absurd (List.cons.inj heq).1 (by decide)
  exact (mask_exact _ _ hdivides).1 (by simp [Segment.Clean])

/-- The comment of `/*/ x */` is taken to end with its first three characters, and the last
character of a comment that is not closed is left. -/
theorem mask_inexact :
    ¬(∀ text segments, Divides text segments → MasksExactly text segments) ∧
      maskComments "/*/ x */".toList = "    x */".toList ∧
      maskComments "/* x".toList = "   x".toList := by
  refine ⟨fun h => ?_, by decide +kernel, by decide +kernel⟩
  have hdivides : Divides ['/', '*', ' ', 'x'] [.openComment [' ', 'x']] := by
    refine .openBlock fun u v heq => ?_
    have hmem : '*' ∈ [' ', 'x'] := by rw [heq]; simp
    exact absurd hmem (by decide)
  have hequal := (h _ _ hdivides).exact
  exact absurd hequal (by decide +kernel)

end AtlasDb.Dialects
