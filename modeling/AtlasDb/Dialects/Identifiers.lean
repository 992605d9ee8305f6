import AtlasDb.Dialects.Regions
import Mathlib.Data.List.Forall2

/-!
# Keys of identifiers

`normalize_identifier` splits a name at the dots outside of quotes, folds the parts that are not
quoted and joins the parts that are not empty. Folding is described by what a change of case leaves
as it is (`CaseMapping`), the parts of a name by `Named`, in which a closing quote may stand doubled
between quotes. The source closes a bracket at the first `]` (`Dotted`). The key is its own key, and
where the brackets are read alike and no part is empty two names have the same key iff they have as
many parts and the parts are the same name one by one (`normalizeIdentifier_key`).
-/

namespace AtlasDb.Dialects

open Core Core.Text

/-! ## Changes of case -/

/-- The quotes of an identifier, as `quote_pairs` lists them. -/
inductive QuoteStyle where
  | doubleQuote
  | backquote
  | bracket
deriving DecidableEq

def QuoteStyle.opening : QuoteStyle → Char
  | .doubleQuote => '"'
  | .backquote => '`'
  | .bracket => '['

def QuoteStyle.closing : QuoteStyle → Char
  | .doubleQuote => '"'
  | .backquote => '`'
  | .bracket => ']'

/-- `quote_pairs` of `_split_qualified`, looked up at the opening character. -/
def QuoteStyle.ofOpening (c : Char) : Option QuoteStyle :=
  if c = '"' then some .doubleQuote
  else if c = '`' then some .backquote
  else if c = '[' then some .bracket
  else none

/-- The characters that decide where a name is split. -/
def isMark (c : Char) : Bool := c = '.' || c = '"' || c = '`' || c = '[' || c = ']'

/-- The characters a change of case leaves as they are. -/
def isFixed (c : Char) : Bool := isMark c || isSpace c

/-- What a change of case writes for a character: a mark or a white space stays, another character
becomes one or more characters that are neither. -/
def Cased (c : Char) (piece : List Char) : Prop :=
  if isFixed c then piece = [c] else piece ≠ [] ∧ ∀ d ∈ piece, isFixed d = false

/-- A text and what a change of case makes of it, character by character. -/
inductive Recased : List Char → List Char → Prop where
  | nil : Recased [] []
  | cons {c : Char} {piece text text' : List Char} (hc : Cased c piece) (h : Recased text text') :
      Recased (c :: text) (piece ++ text')

/-- A change of case of whole texts, as `str.upper()` and `str.lower()` are. -/
structure CaseMapping where
  map : List Char → List Char
  map_map : ∀ text, map (map text) = map text
  recased : ∀ text, Recased text (map text)

theorem recased_map {f : Char → Char} (hfixed : ∀ c, isFixed c = true → f c = c)
    (hother : ∀ c, isFixed c = false → isFixed (f c) = false) (text : List Char) :
    Recased text (text.map f) := by
  induction text with
  | nil => exact .nil
  | cons c text ih =>
    refine @Recased.cons c [f c] text _ ?_ ih
    unfold Cased
    split
    · next h => rw [hfixed c h]
    · next h =>
        rw [Bool.not_eq_true] at h
        exact ⟨List.cons_ne_nil _ _, by simpa using hother c h⟩

/-- The text as it is. -/
def CaseMapping.preserve : CaseMapping where
  map := id
  map_map _ := rfl
  recased text := by
    have h := @recased_map id (fun _ _ => rfl) (fun _ h => h) text
    rwa [List.map_id] at h

/-- `str.upper` and `str.lower` -/
structure Casing where
  upper : CaseMapping
  lower : CaseMapping

/-! ## The normalizer -/

/-- `unquoted_server_case`; the sources have two more texts for a case that depends on a setting. -/
inductive ServerCase where
  | upper
  | lower
  | settingDependent
deriving DecidableEq

/-- `canonical_case` -/
inductive CanonicalCase where
  | upper
  | lower
  | preserve
deriving DecidableEq

structure DialectNormalizer where
  dialect : DialectId
  quotePairs : List QuoteStyle
  unquotedServerCase : ServerCase
  canonicalCase : CanonicalCase := .upper

/-- `NORMALIZER` of each dialect package. -/
def normalizerOf : DialectId → DialectNormalizer
  | .db2SqlPl =>
    { dialect := .db2SqlPl, quotePairs := [.doubleQuote], unquotedServerCase := .upper }
  | .oraclePlsql =>
    { dialect := .oraclePlsql, quotePairs := [.doubleQuote], unquotedServerCase := .upper }
  | .sqlserverTsql =>
    { dialect := .sqlserverTsql, quotePairs := [.bracket, .doubleQuote],
      unquotedServerCase := .settingDependent }
  | .postgresqlPlpgsql =>
    { dialect := .postgresqlPlpgsql, quotePairs := [.doubleQuote], unquotedServerCase := .lower }
  | .mysqlStoredProgram =>
    { dialect := .mysqlStoredProgram, quotePairs := [.backquote, .doubleQuote],
      unquotedServerCase := .settingDependent }

/-- `clean.startswith(left) and clean.endswith(right) and len(clean) >= len(left) + len(right)` -/
def QuoteStyle.delimits (style : QuoteStyle) (clean : List Char) : Bool :=
  clean.head? = some style.opening && clean.getLast? = some style.closing && 2 ≤ clean.length

/-- `clean[len(left) : len(clean) - len(right)]` -/
def innerText (clean : List Char) : List Char := (clean.take (clean.length - 1)).drop 1

/-- The change of case of the parts that are not quoted. -/
def DialectNormalizer.folding (n : DialectNormalizer) (casing : Casing) : CaseMapping :=
  if n.unquotedServerCase = .upper then casing.upper
  else if n.unquotedServerCase = .lower then casing.lower
  else if n.canonicalCase = .lower then casing.lower
  else if n.canonicalCase = .preserve then .preserve
  else casing.upper

/-- `_normalize_identifier_part` -/
def DialectNormalizer.normalizeIdentifierPart (n : DialectNormalizer) (casing : Casing)
    (value : List Char) : List Char :=
  let clean := strip value
  match n.quotePairs.find? fun style => style.delimits clean with
  | some style => style.opening :: (innerText clean ++ [style.closing])
  | none => (n.folding casing).map clean

/-- The loop of `_split_qualified`: `quoteEnd` is the quote that is waited for, `current` the part
read so far. -/
def splitFrom (quoteEnd : Option Char) (current : List Char) : List Char → List (List Char)
  | [] => [current]
  | c :: cs =>
    match quoteEnd with
    | some q => splitFrom (if c = q then none else some q) (current ++ [c]) cs
    | none =>
      match QuoteStyle.ofOpening c with
      | some style => splitFrom (some style.closing) (current ++ [c]) cs
      | none =>
        if c = '.' then current :: splitFrom none [] cs
        else splitFrom none (current ++ [c]) cs

/-- `_split_qualified` -/
def splitQualified (value : List Char) : List (List Char) := splitFrom none [] value

/-- `normalize_identifier` -/
def DialectNormalizer.normalizeIdentifier (n : DialectNormalizer) (casing : Casing)
    (value : List Char) : List Char :=
  let parts := splitQualified (strip value)
  let normalized := parts.map (n.normalizeIdentifierPart casing)
  List.intercalate ['.'] (normalized.filter fun part => part ≠ [])

/-! ## Names as the source splits them -/

/-- A part in which every quote is closed, at the first closing character. -/
inductive WholePart : List Char → Prop where
  | nil : WholePart []
  | plain {c : Char} {part : List Char} (hc : QuoteStyle.ofOpening c = none) (hdot : c ≠ '.')
      (h : WholePart part) : WholePart (c :: part)
  | quoted {style : QuoteStyle} {text part : List Char} (htext : style.closing ∉ text)
      (h : WholePart part) : WholePart (style.opening :: (text ++ style.closing :: part))

/-- The last part, at the end of which a quote may be open. -/
inductive LastPart : List Char → Prop where
  | whole {part : List Char} (h : WholePart part) : LastPart part
  | unclosed {part text : List Char} {style : QuoteStyle} (h : WholePart part)
      (htext : style.closing ∉ text) : LastPart (part ++ style.opening :: text)

variable {part : List Char} {text : List Char} {s s' : List Char}

theorem LastPart.plain {c : Char} (hc : QuoteStyle.ofOpening c = none) (hdot : c ≠ '.')
    (h : LastPart part) : LastPart (c :: part) := by
  cases h with
  | whole h => exact .whole (.plain hc hdot h)
  | unclosed h htext => exact .unclosed (.plain hc hdot h) htext

theorem LastPart.quoted {style : QuoteStyle} {text part : List Char} (htext : style.closing ∉ text)
    (h : LastPart part) : LastPart (style.opening :: (text ++ style.closing :: part)) := by
  cases h with
  | whole h => exact .whole (.quoted htext h)
  | @unclosed part last style' h hlast =>
    have hlist : style.opening :: (text ++ style.closing :: (part ++ style'.opening :: last)) =
        style.opening :: (text ++ style.closing :: part) ++ style'.opening :: last := by simp
    rw [hlist]
    exact .unclosed (.quoted htext h) hlast

/-- The parts that `_split_qualified` makes of a text. -/
inductive Dotted : List Char → List (List Char) → Prop where
  | single {part : List Char} (h : LastPart part) : Dotted part [part]
  | cons {part rest : List Char} {parts : List (List Char)} (h : WholePart part)
      (hrest : Dotted rest parts) : Dotted (part ++ '.' :: rest) (part :: parts)

@[simp] theorem QuoteStyle.ofOpening_opening (style : QuoteStyle) :
    QuoteStyle.ofOpening style.opening = some style := by
  cases style with
  | doubleQuote => rfl
  | backquote => rfl
  | bracket => rfl

theorem QuoteStyle.ofOpening_eq_some {c : Char} {style : QuoteStyle}
    (h : QuoteStyle.ofOpening c = some style) : c = style.opening := by
  unfold QuoteStyle.ofOpening at h
  split at h
  · next hc => rw [hc, ← Option.some.inj h]; rfl
  split at h
  · next hc => rw [hc, ← Option.some.inj h]; rfl
  split at h
  · next hc => rw [hc, ← Option.some.inj h]; rfl
  · cases h

/-- The quote that is waited for behind a part of a name that has no dot outside of quotes. -/
def quoteAfter (quoteEnd : Option Char) : List Char → Option (Option Char)
  | [] => some quoteEnd
  | c :: cs =>
    match quoteEnd with
    | some q => quoteAfter (if c = q then none else some q) cs
    | none =>
      match QuoteStyle.ofOpening c with
      | some style => quoteAfter (some style.closing) cs
      | none => if c = '.' then none else quoteAfter none cs

theorem quoteAfter_awaiting (q c : Char) (cs : List Char) :
    quoteAfter (some q) (c :: cs) = quoteAfter (if c = q then none else some q) cs := rfl

theorem quoteAfter_none (c : Char) (cs : List Char) :
    quoteAfter none (c :: cs) = match QuoteStyle.ofOpening c with
      | some style => quoteAfter (some style.closing) cs
      | none => if c = '.' then none else quoteAfter none cs := rfl

theorem quoteAfter_closing {q : Char} (h : q ∉ text) (rest : List Char) :
    quoteAfter (some q) (text ++ q :: rest) = quoteAfter none rest := by
  induction text with
  | nil => rw [List.nil_append, quoteAfter_awaiting, if_pos rfl]
  | cons c text ih =>
    rw [List.mem_cons, not_or] at h
    rw [List.cons_append, quoteAfter_awaiting, if_neg (Ne.symm h.1), ih h.2]

theorem quoteAfter_open {q : Char} (h : q ∉ text) :
    quoteAfter (some q) text = some (some q) := by
  induction text with
  | nil => rfl
  | cons c text ih =>
    rw [List.mem_cons, not_or] at h
    rw [quoteAfter_awaiting, if_neg (Ne.symm h.1), ih h.2]

theorem WholePart.quoteAfter (h : WholePart part) (rest : List Char) :
    quoteAfter none (part ++ rest) = AtlasDb.Dialects.quoteAfter none rest := by
  induction h with
  | nil => rfl
  | plain hc hdot _ ih =>
    rw [List.cons_append, quoteAfter_none, hc]
    dsimp only
    rw [if_neg hdot, ih]
  | @quoted style text part htext _ ih =>
    rw [List.cons_append, quoteAfter_none, QuoteStyle.ofOpening_opening]
    dsimp only
    rw [List.append_assoc, List.cons_append, quoteAfter_closing htext, ih]

/-- What is left to close at the end of a text says how it reads. -/
theorem parts_of_quoteAfter : (quoteAfter none part = some none → WholePart part) ∧
    (quoteAfter none part ≠ none → LastPart part) := by
  induction hlength : part.length using Nat.strongRecOn generalizing part with
  | _ n ih =>
    cases part with
    | nil => exact ⟨fun _ => .nil, fun _ => .whole .nil⟩
    | cons c part =>
      rw [quoteAfter_none]
      cases hc : QuoteStyle.ofOpening c with
      | some style =>
        dsimp only
        rw [QuoteStyle.ofOpening_eq_some hc]
        by_cases hmem : style.closing ∈ part
        · obtain ⟨text, rest, rfl, htext⟩ := List.eq_append_cons_of_mem hmem
          rw [quoteAfter_closing htext]
          have hrest := ih rest.length (by rw [← hlength]; simp; omega) rfl
          exact ⟨fun h => .quoted htext (hrest.1 h), fun h => .quoted htext (hrest.2 h)⟩
        · rw [quoteAfter_open hmem]
          exact ⟨nofun, fun _ => .unclosed .nil hmem⟩
      | none =>
        dsimp only
        split
        · exact ⟨nofun, fun h => absurd rfl h⟩
        · next hdot =>
            have hrest := ih part.length (by simp [← hlength]) rfl
            exact ⟨fun h => .plain hc hdot (hrest.1 h), fun h => .plain hc hdot (hrest.2 h)⟩

theorem wholePart_iff : WholePart part ↔ quoteAfter none part = some none := by
  refine ⟨fun h => ?_, parts_of_quoteAfter.1⟩
  have := h.quoteAfter []
  rwa [List.append_nil] at this

theorem lastPart_iff : LastPart part ↔ quoteAfter none part ≠ none := by
  refine ⟨fun h => ?_, parts_of_quoteAfter.2⟩
  cases h with
  | whole h =>
    rw [wholePart_iff.mp h]
    exact nofun
  | @unclosed part text style h htext =>
    rw [h.quoteAfter, quoteAfter_none, QuoteStyle.ofOpening_opening]
    dsimp only
    rw [quoteAfter_open htext]
    exact nofun

/-- Text that does not stay in one part has a dot outside of quotes. -/
theorem exists_dot {quoteEnd : Option Char} (h : quoteAfter quoteEnd text = none) :
    ∃ part rest, text = part ++ '.' :: rest ∧ quoteAfter quoteEnd part = some none := by
  induction text generalizing quoteEnd with
  | nil => cases h
  | cons c text ih =>
    cases quoteEnd with
    | some q =>
      rw [quoteAfter_awaiting] at h
      obtain ⟨part, rest, rfl, hpart⟩ := ih h
      exact ⟨c :: part, rest, rfl, by rw [quoteAfter_awaiting, hpart]⟩
    | none =>
      rw [quoteAfter_none] at h
      cases hc : QuoteStyle.ofOpening c with
      | some style =>
        rw [hc] at h
        obtain ⟨part, rest, rfl, hpart⟩ := ih h
        refine ⟨c :: part, rest, rfl, ?_⟩
        rw [quoteAfter_none, hc]
        exact hpart
      | none =>
        rw [hc] at h
        dsimp only at h
        split at h
        · next hdot => exact ⟨[], text, by rw [hdot]; rfl, rfl⟩
        · next hdot =>
            obtain ⟨part, rest, rfl, hpart⟩ := ih h
            refine ⟨c :: part, rest, rfl, ?_⟩
            rw [quoteAfter_none, hc]
            dsimp only
            rw [if_neg hdot, hpart]

theorem exists_dotted (text : List Char) : ∃ parts, Dotted text parts := by
  induction hlength : text.length using Nat.strongRecOn generalizing text with
  | _ n ih =>
    by_cases h : quoteAfter none text = none
    · obtain ⟨part, rest, rfl, hpart⟩ := exists_dot h
      obtain ⟨parts, hparts⟩ := ih rest.length (by rw [← hlength]; simp; omega) rest rfl
      exact ⟨_, .cons (wholePart_iff.mpr hpart) hparts⟩
    · exact ⟨_, .single (lastPart_iff.mpr h)⟩

theorem splitFrom_append {quoteEnd quoteEnd' : Option Char} {current : List Char}
    (h : quoteAfter quoteEnd part = some quoteEnd') (rest : List Char) :
    splitFrom quoteEnd current (part ++ rest) = splitFrom quoteEnd' (current ++ part) rest := by
  induction part generalizing quoteEnd current with
  | nil =>
    obtain rfl := Option.some.inj h
    rw [List.nil_append, List.append_nil]
  | cons c part ih =>
    have hcurrent : current ++ c :: part = current ++ [c] ++ part := by simp
    rw [List.cons_append, hcurrent]
    cases quoteEnd with
    | some q =>
      rw [quoteAfter_awaiting] at h
      rw [splitFrom]
      exact ih h
    | none =>
      rw [quoteAfter_none] at h
      rw [splitFrom]
      cases hc : QuoteStyle.ofOpening c with
      | some style =>
        rw [hc] at h
        exact ih h
      | none =>
        rw [hc] at h
        dsimp only at h ⊢
        split at h
        · cases h
        · next hdot => rw [if_neg hdot, ih h]

theorem Dotted.splitQualified {parts : List (List Char)} (h : Dotted text parts) :
    splitQualified text = parts := by
  induction h with
  | single h =>
    obtain ⟨quoteEnd, hquote⟩ := Option.ne_none_iff_exists'.mp (lastPart_iff.mp h)
    have hsplit := @splitFrom_append _ none quoteEnd [] hquote []
    rwa [List.append_nil] at hsplit
  | cons h _ ih =>
    have hdot : QuoteStyle.ofOpening '.' = none := rfl
    rw [AtlasDb.Dialects.splitQualified, splitFrom_append (wholePart_iff.mp h), splitFrom, hdot]
    dsimp only
    rw [if_pos rfl, List.nil_append]
    exact congrArg _ ih

theorem dotted_splitQualified (text : List Char) : Dotted text (splitQualified text) := by
  obtain ⟨parts, h⟩ := exists_dotted text
  rwa [h.splitQualified]

/-! ## Marks -/

/-- The quote that is waited for is a mark. -/
def Awaits (quoteEnd : Option Char) : Prop := ∀ q ∈ quoteEnd, isMark q = true

theorem awaits_none : Awaits none := fun _ h => nomatch h

theorem QuoteStyle.isMark_opening (style : QuoteStyle) : isMark style.opening = true := by
  cases style with
  | doubleQuote => rfl
  | backquote => rfl
  | bracket => rfl

theorem QuoteStyle.isMark_closing (style : QuoteStyle) : isMark style.closing = true := by
  cases style with
  | doubleQuote => rfl
  | backquote => rfl
  | bracket => rfl

/-- Only marks decide what is quoted. -/
theorem quoteAfter_filter {quoteEnd : Option Char} (h : Awaits quoteEnd) :
    quoteAfter quoteEnd (text.filter isMark) = quoteAfter quoteEnd text := by
  induction text generalizing quoteEnd with
  | nil => rfl
  | cons c text ih =>
    by_cases hmark : isMark c = true
    · rw [List.filter_cons_of_pos hmark]
      cases quoteEnd with
      | some q =>
        rw [quoteAfter_awaiting, quoteAfter_awaiting, ih]
        split
        · exact awaits_none
        · exact h
      | none =>
        rw [quoteAfter_none, quoteAfter_none]
        cases QuoteStyle.ofOpening c with
        | some style =>
          exact ih fun q hq => (Option.some.inj hq) ▸ style.isMark_closing
        | none =>
          dsimp only
          rw [ih h]
    · rw [List.filter_cons_of_neg hmark, ih h]
      cases quoteEnd with
      | some q =>
        have hq : c ≠ q := fun hcq => hmark (hcq ▸ h q rfl)
        rw [quoteAfter_awaiting, if_neg hq]
      | none =>
        have hdot : c ≠ '.' := fun hc => hmark (hc ▸ rfl)
        rw [quoteAfter_none]
        cases hopening : QuoteStyle.ofOpening c with
        | some style =>
          exact absurd (QuoteStyle.ofOpening_eq_some hopening ▸ style.isMark_opening) hmark
        | none =>
          dsimp only
          rw [if_neg hdot]

theorem WholePart.of_filter {part part' : List Char} (h : WholePart part)
    (hmarks : part'.filter isMark = part.filter isMark) : WholePart part' := by
  rw [wholePart_iff, ← quoteAfter_filter awaits_none] at h ⊢
  rw [hmarks, h]

theorem LastPart.of_filter {part part' : List Char} (h : LastPart part)
    (hmarks : part'.filter isMark = part.filter isMark) : LastPart part' := by
  rw [lastPart_iff, ← quoteAfter_filter awaits_none] at h ⊢
  rwa [hmarks]

theorem isMark_of_isSpace {c : Char} (h : isSpace c = true) : isMark c = false := by
  by_contra hmark
  rw [Bool.not_eq_false] at hmark
  simp only [isMark, Bool.or_eq_true, decide_eq_true_eq] at hmark
  obtain (((rfl | rfl) | rfl) | rfl) | rfl := hmark
  all_goals exact absurd h (by decide)

theorem filter_isMark_dropWhile (text : List Char) :
    (text.dropWhile isSpace).filter isMark = text.filter isMark := by
  induction text with
  | nil => rfl
  | cons c text ih =>
    by_cases hc : isSpace c = true
    · rw [List.dropWhile_cons_of_pos hc, ih,
        List.filter_cons_of_neg (by rw [isMark_of_isSpace hc]; exact Bool.false_ne_true)]
    · rw [List.dropWhile_cons_of_neg hc]

theorem filter_isMark_strip (text : List Char) :
    (strip text).filter isMark = text.filter isMark := by
  rw [strip, stripBy, List.filter_reverse, filter_isMark_dropWhile, List.filter_reverse,
    List.reverse_reverse, filter_isMark_dropWhile]

/-! ## What a change of case leaves -/

theorem Recased.append {s s' t t' : List Char} (hs : Recased s s') (ht : Recased t t') :
    Recased (s ++ t) (s' ++ t') := by
  induction hs with
  | nil => exact ht
  | cons hc _ ih =>
    rw [List.cons_append, List.append_assoc]
    exact .cons hc ih

theorem Cased.reverse {c : Char} {piece : List Char} (h : Cased c piece) :
    Cased c piece.reverse := by
  unfold Cased at *
  split at h
  · next hc => rw [if_pos hc, h, List.reverse_singleton]
  · next hc =>
      rw [if_neg hc]
      exact ⟨by simpa using h.1, by simpa using h.2⟩

theorem Recased.reverse (h : Recased s s') : Recased s.reverse s'.reverse := by
  induction h with
  | nil => exact .nil
  | @cons c piece _ _ hc _ ih =>
    rw [List.reverse_cons, List.reverse_append]
    refine ih.append ?_
    have hone := Recased.cons hc.reverse .nil
    rwa [List.append_nil] at hone

theorem Recased.filter_isMark (h : Recased s s') :
    s'.filter isMark = s.filter isMark := by
  induction h with
  | nil => rfl
  | @cons c piece _ _ hc _ ih =>
    rw [List.filter_append, ih]
    unfold Cased at hc
    split at hc
    · rw [hc, ← List.filter_append, List.singleton_append]
    · next hfixed =>
        have hmark : isMark c = false := by simp_all [isFixed]
        have hpiece : piece.filter isMark = [] := by
          rw [List.filter_eq_nil_iff]
          intro d hd
          have := hc.2 d hd
          simp_all [isFixed]
        rw [hpiece, List.nil_append, List.filter_cons_of_neg (by simp [hmark])]

theorem Recased.nil_iff (h : Recased s s') : s' = [] ↔ s = [] := by
  cases h with
  | nil => simp
  | @cons c piece _ _ hc _ =>
    have hne : piece ≠ [] := by
      unfold Cased at hc
      split at hc
      · rw [hc]
        exact List.cons_ne_nil _ _
      · exact hc.1
    simp [hne]

theorem Recased.head_iff {d : Char} (h : Recased s s') (hd : isFixed d = true) :
    s'.head? = some d ↔ s.head? = some d := by
  cases h with
  | nil => rfl
  | @cons c piece _ _ hc _ =>
    unfold Cased at hc
    split at hc
    · rw [hc]
      rfl
    · next hfixed =>
        cases piece with
        | nil => exact absurd rfl hc.1
        | cons e piece =>
          have he := hc.2 e (List.mem_cons_self ..)
          rw [List.cons_append, List.head?_cons, List.head?_cons, Option.some_inj, Option.some_inj]
          constructor
          · rintro rfl
            exact absurd (he.symm.trans hd) Bool.false_ne_true
          · rintro rfl
            exact absurd hd hfixed

theorem Recased.getLast_iff {d : Char} (h : Recased s s') (hd : isFixed d = true) :
    s'.getLast? = some d ↔ s.getLast? = some d := by
  rw [← List.head?_reverse, ← List.head?_reverse]
  exact h.reverse.head_iff hd

/-! ## The parts of a key -/

section Keys

variable (n : DialectNormalizer) (casing : Casing)

theorem QuoteStyle.delimits_innerText {style : QuoteStyle} {clean : List Char}
    (h : style.delimits clean = true) :
    style.opening :: (innerText clean ++ [style.closing]) = clean := by
  simp only [QuoteStyle.delimits, Bool.and_eq_true, decide_eq_true_eq] at h
  obtain ⟨⟨hhead, hlast⟩, hlength⟩ := h
  obtain ⟨rest, rfl⟩ := List.head?_eq_some_iff.mp hhead
  obtain ⟨front, hfront⟩ := List.getLast?_eq_some_iff.mp hlast
  cases front with
  | nil =>
    rw [hfront] at hlength
    exact absurd hlength (by simp)
  | cons c front =>
    rw [hfront, innerText]
    simp [(List.cons.inj hfront).1]

theorem two_le_length_iff {a b : Char} {text : List Char} (ha : isMark a = true)
    (hb : isMark b = true) (hhead : text.head? = some a) (hlast : text.getLast? = some b) :
    2 ≤ text.length ↔ 2 ≤ (text.filter isMark).length := by
  constructor
  · intro hlength
    obtain ⟨rest, rfl⟩ := List.head?_eq_some_iff.mp hhead
    have hmem : b ∈ rest := by
      cases rest with
      | nil => exact absurd hlength (by simp)
      | cons c rest =>
        rw [List.getLast?_cons_cons] at hlast
        exact List.mem_of_getLast? hlast
    have hpos := List.length_pos_of_mem (List.mem_filter.mpr ⟨hmem, hb⟩)
    rw [List.filter_cons_of_pos ha, List.length_cons]
    omega
  · exact fun h => Nat.le_trans h (List.length_filter_le _ _)

theorem Recased.delimits {s s' : List Char} (h : Recased s s') (style : QuoteStyle) :
    style.delimits s' = style.delimits s := by
  have hopening := style.isMark_opening
  have hclosing := style.isMark_closing
  rw [Bool.eq_iff_iff]
  simp only [QuoteStyle.delimits, Bool.and_eq_true, decide_eq_true_eq]
  rw [h.head_iff (by rw [isFixed, hopening]; rfl), h.getLast_iff (by rw [isFixed, hclosing]; rfl)]
  refine and_congr_right fun ⟨hhead, hlast⟩ => ?_
  rw [two_le_length_iff hopening hclosing hhead hlast, ← h.filter_isMark]
  apply two_le_length_iff hopening hclosing
  · exact (h.head_iff (by rw [isFixed, hopening]; rfl)).mpr hhead
  · exact (h.getLast_iff (by rw [isFixed, hclosing]; rfl)).mpr hlast

theorem Recased.strip_eq {s s' : List Char} (h : Recased s s') (hs : strip s = s) :
    strip s' = s' := by
  rw [strip_eq_self_iff] at hs ⊢
  constructor
  · intro c hc
    by_contra hspace
    rw [Bool.not_eq_false] at hspace
    have hfixed : isFixed c = true := by rw [isFixed, hspace, Bool.or_true]
    exact absurd (hs.1 c ((h.head_iff hfixed).mp hc)) (by simp [hspace])
  · intro c hc
    by_contra hspace
    rw [Bool.not_eq_false] at hspace
    have hfixed : isFixed c = true := by rw [isFixed, hspace, Bool.or_true]
    exact absurd (hs.2 c ((h.getLast_iff hfixed).mp hc)) (by simp [hspace])

/-- The style a text is quoted in, if the dialect has it. -/
def DialectNormalizer.styleOf (clean : List Char) : Option QuoteStyle :=
  n.quotePairs.find? fun style => style.delimits clean

theorem Recased.styleOf {s s' : List Char} (h : Recased s s') : n.styleOf s' = n.styleOf s := by
  rw [DialectNormalizer.styleOf, DialectNormalizer.styleOf]
  simp only [h.delimits]

theorem normalizeIdentifierPart_eq (value : List Char) :
    n.normalizeIdentifierPart casing value =
      if n.styleOf (strip value) = none then (n.folding casing).map (strip value)
      else strip value := by
  have hstyle : n.styleOf (strip value) =
      n.quotePairs.find? fun style => style.delimits (strip value) := rfl
  rw [DialectNormalizer.normalizeIdentifierPart, ← hstyle]
  cases h : n.styleOf (strip value) with
  | none => rw [if_pos rfl]
  | some style =>
    rw [if_neg nofun]
    rw [hstyle] at h
    have hdelimits : style.delimits (strip value) = true :=
      @List.find?_some _ (fun style : QuoteStyle => style.delimits (strip value)) _ _ h
    exact QuoteStyle.delimits_innerText hdelimits

theorem recased_part (value : List Char) :
    Recased (strip value) (n.normalizeIdentifierPart casing value) := by
  rw [normalizeIdentifierPart_eq]
  split
  · exact (n.folding casing).recased _
  · exact CaseMapping.preserve.recased _

theorem strip_part (value : List Char) :
    strip (n.normalizeIdentifierPart casing value) = n.normalizeIdentifierPart casing value :=
  (recased_part n casing value).strip_eq (strip_strip value)

theorem filter_isMark_part (value : List Char) :
    (n.normalizeIdentifierPart casing value).filter isMark = value.filter isMark := by
  rw [(recased_part n casing value).filter_isMark, filter_isMark_strip]

theorem normalizeIdentifierPart_part (value : List Char) :
    n.normalizeIdentifierPart casing (n.normalizeIdentifierPart casing value) =
      n.normalizeIdentifierPart casing value := by
  have hstyle := (recased_part n casing value).styleOf n
  rw [normalizeIdentifierPart_eq n casing (n.normalizeIdentifierPart casing value),
    strip_part, hstyle]
  split
  · next h => rw [normalizeIdentifierPart_eq, if_pos h, (n.folding casing).map_map]
  · rfl

/-! ## Keys -/

/-- The parts a key is joined from. -/
def DialectNormalizer.keyParts (value : List Char) : List (List Char) :=
  ((splitQualified (strip value)).map (n.normalizeIdentifierPart casing)).filter
    fun part => part ≠ []

theorem normalizeIdentifier_eq (value : List Char) :
    n.normalizeIdentifier casing value = List.intercalate ['.'] (n.keyParts casing value) := rfl

theorem Dotted.joined {text : List Char} {parts : List (List Char)} (h : Dotted text parts) :
    let left := (parts.map (n.normalizeIdentifierPart casing)).filter fun part => part ≠ []
    left ≠ [] → Dotted (List.intercalate ['.'] left) left := by
  dsimp only
  induction h with
  | @single part h =>
    intro hne
    have hpart := h.of_filter (filter_isMark_part n casing part)
    rw [List.map_singleton] at hne ⊢
    by_cases hnil : n.normalizeIdentifierPart casing part = []
    · exact absurd (by simp [hnil]) hne
    · rw [List.filter_cons_of_pos (by simp [hnil]), List.filter_nil, List.intercalate_singleton]
      exact .single hpart
  | @cons part rest parts h _ ih =>
    intro hne
    have hpart := h.of_filter (filter_isMark_part n casing part)
    rw [List.map_cons] at hne ⊢
    by_cases hnil : n.normalizeIdentifierPart casing part = []
    · rw [List.filter_cons_of_neg (by simp [hnil])] at hne ⊢
      exact ih hne
    · rw [List.filter_cons_of_pos (by simp [hnil])]
      by_cases hlast :
          (parts.map (n.normalizeIdentifierPart casing)).filter (fun part => part ≠ []) = []
      · rw [hlast, List.intercalate_singleton]
        exact .single (.whole hpart)
      · rw [List.intercalate_cons_of_ne_nil hlast, List.append_assoc, List.singleton_append]
        exact .cons hpart (ih hlast)

theorem mem_keyParts {value part : List Char} (h : part ∈ n.keyParts casing value) :
    part ≠ [] ∧ strip part = part ∧ n.normalizeIdentifierPart casing part = part := by
  rw [DialectNormalizer.keyParts, List.mem_filter, List.mem_map] at h
  obtain ⟨⟨source, -, rfl⟩, hne⟩ := h
  exact ⟨by simpa using hne, strip_part n casing source,
    normalizeIdentifierPart_part n casing source⟩

theorem strip_intercalate {parts : List (List Char)}
    (h : ∀ part ∈ parts, part ≠ [] ∧ strip part = part) :
    strip (List.intercalate ['.'] parts) = List.intercalate ['.'] parts := by
  rw [strip_eq_self_iff]
  constructor
  · cases parts with
    | nil => exact nofun
    | cons part parts =>
      obtain ⟨hne, hstrip⟩ := h part (List.mem_cons_self ..)
      have hhead := (strip_eq_self_iff.mp hstrip).1
      cases part with
      | nil => exact absurd rfl hne
      | cons c part =>
        cases parts with
        | nil => rwa [List.intercalate_singleton]
        | cons part' parts =>
          rw [List.intercalate_cons_cons]
          exact hhead
  · induction parts with
    | nil => exact nofun
    | cons part parts ih =>
      rw [List.forall_mem_cons] at h
      cases parts with
      | nil =>
        rw [List.intercalate_singleton]
        exact (strip_eq_self_iff.mp h.1.2).2
      | cons part' parts =>
        intro c hc
        rw [List.intercalate_cons_cons, List.append_assoc, List.getLast?_append] at hc
        cases hlast : (List.intercalate ['.'] (part' :: parts)).getLast? with
        | some d =>
          rw [List.getLast?_append, hlast] at hc
          exact ih h.2 c (by rw [hlast]; exact hc)
        | none =>
          rw [List.getLast?_append, hlast] at hc
          obtain rfl : '.' = c := by simpa using hc
          rfl

theorem dotted_key {value : List Char} (hne : n.keyParts casing value ≠ []) :
    Dotted (n.normalizeIdentifier casing value) (n.keyParts casing value) :=
  (dotted_splitQualified (strip value)).joined n casing hne

theorem strip_key (value : List Char) :
    strip (n.normalizeIdentifier casing value) = n.normalizeIdentifier casing value :=
  strip_intercalate fun _ h => ⟨(mem_keyParts n casing h).1, (mem_keyParts n casing h).2.1⟩

theorem keyParts_key (value : List Char) :
    n.keyParts casing (n.normalizeIdentifier casing value) = n.keyParts casing value := by
  by_cases hne : n.keyParts casing value = []
  · rw [normalizeIdentifier_eq, hne]
    have hempty : n.normalizeIdentifierPart casing [] = [] := by
      have h := recased_part n casing []
      exact h.nil_iff.mpr rfl
    show ([n.normalizeIdentifierPart casing []].filter fun part => part ≠ []) = []
    rw [hempty]
    rfl
  · have hsplit : splitQualified (strip (n.normalizeIdentifier casing value)) =
        n.keyParts casing value := by
      rw [strip_key]
      exact (dotted_key n casing hne).splitQualified
    have hself : (n.keyParts casing value).map (n.normalizeIdentifierPart casing) =
        n.keyParts casing value :=
      List.map_congr_left (g := id) (fun part h => (mem_keyParts n casing h).2.2) |>.trans
        (List.map_id _)
    conv_lhs => rw [DialectNormalizer.keyParts]
    rw [hsplit, hself, List.filter_eq_self]
    intro part h
    exact decide_eq_true (mem_keyParts n casing h).1

theorem normalizeIdentifier_eq_iff {x y : List Char} :
    n.normalizeIdentifier casing x = n.normalizeIdentifier casing y ↔
      n.keyParts casing x = n.keyParts casing y := by
  constructor
  · intro h
    rw [← keyParts_key n casing x, ← keyParts_key n casing y, h]
  · intro h
    rw [normalizeIdentifier_eq, normalizeIdentifier_eq, h]

end Keys

/-! ## Names -/

section Names

variable (n : DialectNormalizer) (casing : Casing)

/-- The part is written in the quotes of the style, with the text between them. -/
def Quoted (style : QuoteStyle) (text part : List Char) : Prop :=
  strip part = style.opening :: (text ++ [style.closing])

/-- Two parts are the same name: both are written in the same quotes of the dialect and with the
same spelling, or neither is written in quotes of the dialect and they are spelled alike but for the
case. -/
def DialectNormalizer.SameName (part part' : List Char) : Prop :=
  (∃ style ∈ n.quotePairs, ∃ text, Quoted style text part ∧ Quoted style text part') ∨
    (∀ style ∈ n.quotePairs, ∀ text, ¬ Quoted style text part ∧ ¬ Quoted style text part') ∧
      (n.folding casing).map (strip part) = (n.folding casing).map (strip part')

theorem QuoteStyle.delimits_iff {style : QuoteStyle} {part : List Char} :
    style.delimits (strip part) = true ↔ ∃ text, Quoted style text part := by
  constructor
  · exact fun h => ⟨_, (QuoteStyle.delimits_innerText h).symm⟩
  · rintro ⟨text, h⟩
    rw [Quoted] at h
    have hlast : (style.opening :: (text ++ [style.closing])).getLast? = some style.closing := by
      rw [← List.cons_append, List.getLast?_concat]
    rw [h, QuoteStyle.delimits, hlast]
    simp

theorem styleOf_eq_none_iff {part : List Char} : n.styleOf (strip part) = none ↔
    ∀ style ∈ n.quotePairs, ∀ text, ¬ Quoted style text part := by
  rw [DialectNormalizer.styleOf, List.find?_eq_none]
  refine forall₂_congr fun style _ => ?_
  rw [QuoteStyle.delimits_iff, not_exists]

/-- Two parts have one key iff they are one name. -/
theorem normalizeIdentifierPart_eq_iff {part part' : List Char} :
    n.normalizeIdentifierPart casing part = n.normalizeIdentifierPart casing part' ↔
      n.SameName casing part part' := by
  have hstyle := (recased_part n casing part).styleOf n
  have hstyle' := (recased_part n casing part').styleOf n
  constructor
  · intro h
    rw [h, hstyle'] at hstyle
    rw [normalizeIdentifierPart_eq, normalizeIdentifierPart_eq, hstyle] at h
    split at h
    · next hnone =>
        refine .inr ⟨fun style hmem text => ?_, h⟩
        exact ⟨(styleOf_eq_none_iff n).mp hnone style hmem text,
          (styleOf_eq_none_iff n).mp (hstyle.trans hnone) style hmem text⟩
    · next hsome =>
        obtain ⟨style, hfind⟩ := Option.ne_none_iff_exists'.mp hsome
        have hdelimits : style.delimits (strip part) = true :=
          @List.find?_some _ (fun style : QuoteStyle => style.delimits (strip part)) _ _ hfind
        obtain ⟨text, htext⟩ := QuoteStyle.delimits_iff.mp hdelimits
        exact .inl ⟨style, List.mem_of_find?_eq_some hfind, text, htext, h.symm.trans htext⟩
  · rintro (⟨style, hmem, text, h, h'⟩ | ⟨hnone, hfold⟩)
    · have hquoted (part : List Char) (h : Quoted style text part) :
          n.normalizeIdentifierPart casing part = style.opening :: (text ++ [style.closing]) := by
        rw [normalizeIdentifierPart_eq, if_neg fun hnone => ?_]
        · exact h
        · exact (styleOf_eq_none_iff n).mp hnone style hmem text h
      rw [hquoted part h, hquoted part' h']
    · have hpart := (styleOf_eq_none_iff n).mpr fun style hmem text => (hnone style hmem text).1
      have hpart' := (styleOf_eq_none_iff n).mpr fun style hmem text => (hnone style hmem text).2
      rw [normalizeIdentifierPart_eq, normalizeIdentifierPart_eq, if_pos hpart,
        if_pos hpart', hfold]

theorem keyParts_eq_map {value : List Char} {parts : List (List Char)}
    (h : Dotted (strip value) parts) (hne : ∀ part ∈ parts, strip part ≠ []) :
    n.keyParts casing value = parts.map (n.normalizeIdentifierPart casing) := by
  rw [DialectNormalizer.keyParts, h.splitQualified, List.filter_eq_self]
  intro part hpart
  obtain ⟨source, hsource, rfl⟩ := List.mem_map.mp hpart
  exact decide_eq_true fun hnil =>
    hne source hsource ((recased_part n casing source).nil_iff.mp hnil)

end Names

/-! ## Names as SQL reads them -/

/-- The text between two quotes: a closing quote stands in it only doubled. -/
inductive Doubled (close : Char) : List Char → Prop where
  | nil : Doubled close []
  | plain {c : Char} {text : List Char} (hc : c ≠ close) (h : Doubled close text) :
      Doubled close (c :: text)
  | pair {text : List Char} (h : Doubled close text) : Doubled close (close :: close :: text)

/-- A part of a name: characters outside of quotes, and texts in quotes; `ok` says which texts. -/
inductive NamePart (ok : QuoteStyle → List Char → Prop) : List Char → Prop where
  | nil : NamePart ok []
  | plain {c : Char} {part : List Char} (hc : QuoteStyle.ofOpening c = none) (hdot : c ≠ '.')
      (h : NamePart ok part) : NamePart ok (c :: part)
  | quoted {style : QuoteStyle} {text part : List Char} (htext : ok style text)
      (hend : part.head? ≠ some style.closing) (h : NamePart ok part) :
      NamePart ok (style.opening :: (text ++ style.closing :: part))

/-- The parts of a name, with dots between them. -/
inductive Named (ok : QuoteStyle → List Char → Prop) : List Char → List (List Char) → Prop where
  | single {part : List Char} (h : NamePart ok part) : Named ok part [part]
  | cons {part rest : List Char} {parts : List (List Char)} (h : NamePart ok part)
      (hrest : Named ok rest parts) : Named ok (part ++ '.' :: rest) (part :: parts)

/-- Any text that may stand in the quotes. -/
def Spelled (style : QuoteStyle) (text : List Char) : Prop := Doubled style.closing text

/-- A text in quotes that the source reads alike: in brackets, no dot and no quote is opened behind
a doubled `]`. -/
def ReadAlike (style : QuoteStyle) (text : List Char) : Prop :=
  Spelled style text ∧ (style = .bracket → ∀ front back, text = front ++ ']' :: back →
    ∀ c ∈ back, QuoteStyle.ofOpening c = none ∧ c ≠ '.')

variable {text : List Char}

theorem quoteAfter_doubled {style : QuoteStyle} (hstyle : style.closing = style.opening)
    (h : Doubled style.closing text) (rest : List Char) :
    quoteAfter (some style.closing) (text ++ style.closing :: rest) = quoteAfter none rest := by
  induction h with
  | nil => rw [List.nil_append, quoteAfter_awaiting, if_pos rfl]
  | plain hc _ ih => rw [List.cons_append, quoteAfter_awaiting, if_neg hc, ih]
  | @pair text _ ih =>
    -- the quote is closed and opened again
    rw [List.cons_append, List.cons_append, quoteAfter_awaiting, if_pos rfl, quoteAfter_none]
    conv_lhs => rw [hstyle, QuoteStyle.ofOpening_opening, ← hstyle]
    exact ih

theorem quoteAfter_plain
    (h : ∀ c ∈ text, QuoteStyle.ofOpening c = none ∧ c ≠ '.') (rest : List Char) :
    quoteAfter none (text ++ rest) = quoteAfter none rest := by
  induction text with
  | nil => rfl
  | cons c text ih =>
    rw [List.forall_mem_cons] at h
    rw [List.cons_append, quoteAfter_none, h.1.1]
    dsimp only
    rw [if_neg h.1.2, ih h.2]

theorem ReadAlike.quoteAfter {style : QuoteStyle} (h : ReadAlike style text)
    (rest : List Char) : quoteAfter (some style.closing) (text ++ style.closing :: rest) =
      AtlasDb.Dialects.quoteAfter none rest := by
  cases style with
  | doubleQuote => exact @quoteAfter_doubled text .doubleQuote rfl h.1 rest
  | backquote => exact @quoteAfter_doubled text .backquote rfl h.1 rest
  | bracket =>
    by_cases hmem : ']' ∈ text
    · obtain ⟨front, back, rfl, hfront⟩ := List.eq_append_cons_of_mem hmem
      have hback := h.2 rfl front back rfl
      have hclosing : ∀ c ∈ back ++ [']'], QuoteStyle.ofOpening c = none ∧ c ≠ '.' := by
        intro c hc
        rcases List.mem_append.mp hc with hc | hc
        · exact hback c hc
        · rw [List.mem_singleton.mp hc]
          decide
      have hlist : front ++ ']' :: back ++ QuoteStyle.bracket.closing :: rest =
          front ++ ']' :: (back ++ [']'] ++ rest) := by simp [QuoteStyle.closing]
      rw [hlist]
      exact (quoteAfter_closing hfront _).trans (quoteAfter_plain hclosing rest)
    · exact quoteAfter_closing hmem rest

theorem NamePart.wholePart {part : List Char} (h : NamePart ReadAlike part) : WholePart part := by
  rw [wholePart_iff]
  induction h with
  | nil => rfl
  | plain hc hdot _ ih =>
    rw [quoteAfter_none, hc]
    dsimp only
    rw [if_neg hdot, ih]
  | quoted htext _ _ ih =>
    rw [quoteAfter_none, QuoteStyle.ofOpening_opening]
    exact (htext.quoteAfter _).trans ih

/-- What is read alike is split alike. -/
theorem Named.dotted {parts : List (List Char)} (h : Named ReadAlike text parts) :
    Dotted text parts := by
  induction h with
  | single h => exact .single (.whole h.wholePart)
  | cons h _ ih => exact .cons h.wholePart ih

section Stripped

variable {ok : QuoteStyle → List Char → Prop} {part : List Char}

theorem isSpace_opening (style : QuoteStyle) : isSpace style.opening = false := by
  cases style with
  | doubleQuote => rfl
  | backquote => rfl
  | bracket => rfl

theorem isSpace_closing (style : QuoteStyle) : isSpace style.closing = false := by
  cases style with
  | doubleQuote => rfl
  | backquote => rfl
  | bracket => rfl

theorem NamePart.dropWhile (h : NamePart ok part) : NamePart ok (part.dropWhile isSpace) := by
  induction h with
  | nil => exact .nil
  | @plain c part hc hdot h ih =>
    by_cases hspace : isSpace c = true
    · rwa [List.dropWhile_cons_of_pos hspace]
    · rw [List.dropWhile_cons_of_neg hspace]
      exact .plain hc hdot h
  | @quoted style text part htext hend h _ =>
    rw [List.dropWhile_cons_of_neg (by simp [isSpace_opening])]
    exact .quoted htext hend h

theorem NamePart.init {c : Char} (hspace : isSpace c = true) {front : List Char}
    (h : NamePart ok part) (heq : part = front ++ [c]) : NamePart ok front := by
  induction h generalizing front with
  | nil => simp at heq
  | plain hc hdot h ih =>
    cases front with
    | nil => exact .nil
    | cons d front =>
      obtain ⟨rfl, htail⟩ := List.cons.inj heq
      exact .plain hc hdot (ih htail)
  | @quoted style text part htext hend h ih =>
    rcases List.eq_nil_or_concat part with rfl | ⟨rest, d, rfl⟩
    · -- a closing quote is no white space
      have hlast : style.closing = c := by
        have hends := congrArg List.getLast? heq
        rw [← List.cons_append, List.getLast?_concat, List.getLast?_concat] at hends
        exact Option.some.inj hends
      rw [← hlast, isSpace_closing] at hspace
      cases hspace
    · rw [List.concat_eq_append] at heq hend
      have hsplit : style.opening :: (text ++ style.closing :: rest) = front ∧ d = c := by
        have hlist : style.opening :: (text ++ style.closing :: (rest ++ [d])) =
            style.opening :: (text ++ style.closing :: rest) ++ [d] := by simp
        rw [hlist] at heq
        obtain ⟨hfront, hlast⟩ := List.append_inj' heq rfl
        exact ⟨hfront, List.singleton_inj.mp hlast⟩
      obtain ⟨rfl, rfl⟩ := hsplit
      refine .quoted htext ?_ (ih (by simp))
      cases rest with
      | nil => exact nofun
      | cons e rest => exact hend

theorem NamePart.strip (h : NamePart ok part) : NamePart ok (strip part) := by
  have hback : ∀ {back : List Char}, NamePart ok back.reverse →
      NamePart ok (back.dropWhile isSpace).reverse := by
    intro back h
    induction back with
    | nil => exact h
    | cons c back ih =>
      by_cases hspace : isSpace c = true
      · rw [List.dropWhile_cons_of_pos hspace]
        exact ih (h.init hspace (List.reverse_cons ..))
      · rwa [List.dropWhile_cons_of_neg hspace]
  refine hback ?_
  rw [List.reverse_reverse]
  exact h.dropWhile

theorem Named.parts {text : List Char} {parts : List (List Char)} (h : Named ok text parts) :
    ∀ part ∈ parts, NamePart ok part := by
  induction h with
  | single h => simpa using h
  | cons h _ ih => exact List.forall_mem_cons.mpr ⟨h, ih⟩

theorem named_intercalate {parts : List (List Char)} (hne : parts ≠ [])
    (h : ∀ part ∈ parts, NamePart ok part) : Named ok (List.intercalate ['.'] parts) parts := by
  induction parts with
  | nil => exact absurd rfl hne
  | cons part parts ih =>
    rw [List.forall_mem_cons] at h
    by_cases hlast : parts = []
    · rw [hlast, List.intercalate_singleton]
      exact .single h.1
    · rw [List.intercalate_cons_of_ne_nil hlast, List.append_assoc, List.singleton_append]
      exact .cons h.1 (ih hlast h.2)

end Stripped

section Faithful

variable {n : DialectNormalizer} {casing : Casing} {x y : List Char} {xs ys : List (List Char)}

theorem normalizeIdentifier_eq_iff_sameName (hx : Named ReadAlike (strip x) xs)
    (hy : Named ReadAlike (strip y) ys) (hxs : ∀ part ∈ xs, strip part ≠ [])
    (hys : ∀ part ∈ ys, strip part ≠ []) :
    n.normalizeIdentifier casing x = n.normalizeIdentifier casing y ↔
      List.Forall₂ (n.SameName casing) xs ys := by
  rw [normalizeIdentifier_eq_iff, keyParts_eq_map _ _ hx.dotted hxs,
    keyParts_eq_map _ _ hy.dotted hys,
    ← List.forall₂_eq_eq_eq, List.forall₂_map_left_iff, List.forall₂_map_right_iff]
  simp only [normalizeIdentifierPart_eq_iff]

/-- A name with an empty part has the key of the name without that part. -/
theorem exists_same_key (hx : Named ReadAlike (strip x) xs) (hsome : ∃ part ∈ xs, strip part ≠ []) :
    ∃ y ys, Named ReadAlike (strip y) ys ∧ (∀ part ∈ ys, strip part ≠ []) ∧
      n.normalizeIdentifier casing x = n.normalizeIdentifier casing y ∧
      ys.length = (xs.filter fun part => strip part ≠ []).length := by
  let ys := (xs.filter fun part => strip part ≠ []).map strip
  have hys : ∀ part ∈ ys, part ≠ [] ∧ strip part = part := by
    intro part hpart
    obtain ⟨source, hsource, rfl⟩ := List.mem_map.mp hpart
    exact ⟨by simpa using (List.mem_filter.mp hsource).2, strip_strip source⟩
  have hne : ys ≠ [] := by
    obtain ⟨part, hpart, hstrip⟩ := hsome
    exact List.ne_nil_of_mem
      (List.mem_map_of_mem (List.mem_filter.mpr ⟨hpart, by simpa using hstrip⟩))
  have hname : Named ReadAlike (strip (List.intercalate ['.'] ys)) ys := by
    rw [strip_intercalate hys]
    refine named_intercalate hne fun part hpart => ?_
    obtain ⟨source, hsource, rfl⟩ := List.mem_map.mp hpart
    exact (hx.parts source (List.mem_filter.mp hsource).1).strip
  have hfull : ∀ part ∈ ys, strip part ≠ [] := fun part hpart =>
    (hys part hpart).2.symm ▸ (hys part hpart).1
  refine ⟨_, ys, hname, hfull, ?_, List.length_map ..⟩
  rw [normalizeIdentifier_eq_iff, keyParts_eq_map n casing hname.dotted hfull,
    DialectNormalizer.keyParts, hx.dotted.splitQualified, List.map_map, List.filter_map]
  have hkept : ((fun part => decide (part ≠ [])) ∘ n.normalizeIdentifierPart casing) =
      fun part => decide (strip part ≠ []) := by
    funext part
    exact decide_eq_decide.mpr (not_congr (recased_part n casing part).nil_iff)
  rw [hkept]
  refine List.map_congr_left fun part _ => ?_
  rw [Function.comp_apply, DialectNormalizer.normalizeIdentifierPart,
    DialectNormalizer.normalizeIdentifierPart, strip_strip]

end Faithful

/-- **Keys of identifiers**: a key is its own key, and the key of a name is faithful iff no part of
the name is empty: then another name has the same key iff it has as many parts and these are the
same name one by one. -/
theorem normalizeIdentifier_key (dialect : DialectId) (casing : Casing) :
    let normalize := (normalizerOf dialect).normalizeIdentifier casing
    (∀ x, normalize (normalize x) = normalize x) ∧
      ∀ x xs, Named ReadAlike (strip x) xs → (∃ part ∈ xs, strip part ≠ []) →
        ((∀ y ys, Named ReadAlike (strip y) ys → (∀ part ∈ ys, strip part ≠ []) →
          (normalize x = normalize y ↔
            List.Forall₂ ((normalizerOf dialect).SameName casing) xs ys)) ↔
        ∀ part ∈ xs, strip part ≠ []) := by
  refine ⟨fun x => ?_, fun x xs hx hsome => ⟨fun hfaithful => ?_, fun hxs y ys hy hys => ?_⟩⟩
  · rw [normalizeIdentifier_eq_iff, keyParts_key]
  · obtain ⟨y, ys, hy, hys, hkey, hlength⟩ :=
      @exists_same_key (normalizerOf dialect) casing x xs hx hsome
    have hsame := ((hfaithful y ys hy hys).mp hkey).length_eq
    intro part hpart
    simpa using List.length_filter_eq_length_iff.mp (hlength.symm.trans hsame.symm) part hpart
  · exact normalizeIdentifier_eq_iff_sameName hx hy hxs hys

/-! ## ASCII letters -/

theorem isFixed_of_letter {c : Char}
    (h : 65 ≤ c.toNat ∧ c.toNat ≤ 90 ∨ 97 ≤ c.toNat ∧ c.toNat ≤ 122) :
    isFixed c = false := by
  have hspace : isSpace c = false := isSpace_of_letter h
  have hmark : isMark c = false := by
    by_contra hmark
    rw [Bool.not_eq_false] at hmark
    simp only [isMark, Bool.or_eq_true, decide_eq_true_eq] at hmark
    obtain (((rfl | rfl) | rfl) | rfl) | rfl := hmark
    all_goals exact absurd h (by decide)
  rw [isFixed, hspace, hmark]
  rfl

theorem recased_letters {f : Char → Char}
    (hf : ∀ c, f c = c ∨ isFixed c = false ∧ isFixed (f c) = false) (text : List Char) :
    Recased text (text.map f) := by
  apply recased_map
  · intro c hc
    rcases hf c with h | ⟨h, -⟩
    · exact h
    · exact absurd (hc.symm.trans h) Bool.noConfusion
  · intro c hc
    rcases hf c with h | ⟨-, h⟩
    · rwa [h]
    · exact h

/-- `str.upper` and `str.lower` on ASCII texts. -/
def Casing.ascii : Casing where
  upper :=
    { map := Text.upper
      map_map := fun text => by simp [Text.upper, Function.comp_def, toUpper_toUpper]
      recased := recased_letters fun c => (toUpper_letter c).imp id fun h =>
        ⟨isFixed_of_letter (.inr h.1), isFixed_of_letter (.inl h.2)⟩ }
  lower :=
    { map := List.map Char.toLower
      map_map := fun text => by simp [Function.comp_def, toLower_toLower]
      recased := recased_letters fun c => (toLower_letter c).imp id fun h =>
        ⟨isFixed_of_letter (.inl h.1), isFixed_of_letter (.inr h.2)⟩ }

example :
    (normalizerOf .postgresqlPlpgsql).normalizeIdentifier .ascii "Public . \"CamelTable\"".toList =
    "public.\"CamelTable\"".toList := by decide +kernel

theorem namePart_of_plain {ok : QuoteStyle → List Char → Prop} {part : List Char}
    (h : part.all (fun c => QuoteStyle.ofOpening c = none && c ≠ '.') = true) :
    NamePart ok part := by
  induction part with
  | nil => exact .nil
  | cons c part ih =>
    simp only [List.all_cons, Bool.and_eq_true, decide_eq_true_eq] at h
    exact .plain h.1.1 h.1.2 (ih (by simpa using h.2))

theorem named_plain {ok : QuoteStyle → List Char → Prop} (parts : List (List Char))
    (hne : parts ≠ [])
    (h : parts.all (fun part => part.all fun c => QuoteStyle.ofOpening c = none &&
      c ≠ '.') = true) :
    Named ok (List.intercalate ['.'] parts) parts :=
  named_intercalate hne fun part hpart => namePart_of_plain (List.all_eq_true.mp h part hpart)

theorem normalizeIdentifier_key_folded :
    ((normalizerOf .postgresqlPlpgsql).normalizeIdentifier .ascii "c.t".toList =
        (normalizerOf .postgresqlPlpgsql).normalizeIdentifier .ascii "C.T".toList ↔
      List.Forall₂ ((normalizerOf .postgresqlPlpgsql).SameName .ascii) ["c".toList, "t".toList]
        ["C".toList, "T".toList]) := by
  have hlower : Named ReadAlike (strip "c.t".toList) ["c".toList, "t".toList] :=
    named_plain ["c".toList, "t".toList] nofun (by decide)
  have hupper : Named ReadAlike (strip "C.T".toList) ["C".toList, "T".toList] :=
    named_plain ["C".toList, "T".toList] nofun (by decide)
  exact (((normalizeIdentifier_key .postgresqlPlpgsql .ascii).2 _ _ hlower
    ⟨_, List.mem_cons_self, by decide +kernel⟩).mpr (by decide +kernel)) _ _ hupper
    (by decide +kernel)

/-- An empty part is left out, so that three parts have the key of two; and the source closes a
bracket at the first of two `]`, so that it folds the end of a name in brackets. -/
theorem normalizeIdentifier_not_faithful :
    (Named Spelled "db..t".toList ["db".toList, [], "t".toList] ∧
      Named Spelled "db.t".toList ["db".toList, "t".toList] ∧
      (normalizerOf .sqlserverTsql).normalizeIdentifier .ascii "db..t".toList =
        (normalizerOf .sqlserverTsql).normalizeIdentifier .ascii "db.t".toList) ∧
    (Named Spelled "[a]].b]".toList ["[a]].b]".toList] ∧
      Named Spelled "[a]].B]".toList ["[a]].B]".toList] ∧
      ¬ (normalizerOf .sqlserverTsql).SameName .ascii "[a]].b]".toList "[a]].B]".toList ∧
      (normalizerOf .sqlserverTsql).normalizeIdentifier .ascii "[a]].b]".toList =
        (normalizerOf .sqlserverTsql).normalizeIdentifier .ascii "[a]].B]".toList) := by
  have hbracket : ∀ c : Char, c ≠ ']' → Named Spelled ['[', 'a', ']', ']', '.', c, ']']
      [['[', 'a', ']', ']', '.', c, ']']] := by
    intro c hc
    have htext : Spelled .bracket ['a', ']', ']', '.', c] :=
      .plain (by decide) (.pair (.plain (by decide) (.plain hc .nil)))
    have hpart := @NamePart.quoted Spelled .bracket _ [] htext (by simp) .nil
    exact .single hpart
  refine ⟨⟨named_plain ["db".toList, [], "t".toList] nofun (by decide),
    named_plain ["db".toList, "t".toList] nofun (by decide), by decide +kernel⟩,
    hbracket 'b' (by decide), hbracket 'B' (by decide), ?_, by decide +kernel⟩
  rw [← normalizeIdentifierPart_eq_iff]
  decide +kernel

end AtlasDb.Dialects
