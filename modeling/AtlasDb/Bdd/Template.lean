import AtlasDb.Bdd.Models
import Mathlib.Data.List.Basic

/-!
# Phrase templates

`string.Formatter.parse` and `str.format`, which both read a template as literal texts with
replacement fields between them. A doubled brace is a literal one.
-/

namespace AtlasDb.Bdd

open Core

/-! ## Reading a template -/

/-- A replacement field: its name, its conversion and its format specification. -/
structure Field where
  name : List Char
  conversion : Option Char
  spec : List Char
deriving DecidableEq

/-- A literal text and the field after it, if one follows. -/
structure Markup where
  literal : List Char
  field : Option Field
deriving DecidableEq

/-- The name of a field, the character that ends it and the text after that. Between brackets any
character belongs to the name. -/
def fieldName (bracket : Bool) : List Char → Except PyError (List Char × Char × List Char)
  | [] => .error (.valueError "expected '\x7d' before end of string")
  | c :: cs =>
    if bracket then do
      let (name, stop, rest) ← fieldName (c ≠ ']') cs
      return (c :: name, stop, rest)
    else if c = '\x7b' then .error (.valueError "unexpected '\x7b' in field name")
    else if c = '\x7d' ∨ c = ':' ∨ c = '!' then .ok ([], c, cs)
    else do
      let (name, stop, rest) ← fieldName (c = '[') cs
      return (c :: name, stop, rest)

/-- The format specification, up to the brace that closes the field. -/
def formatSpec (depth : Nat) : List Char → Except PyError (List Char × List Char)
  | [] => .error (.valueError "unmatched '\x7b' in format spec")
  | c :: cs =>
    if c = '\x7d' ∧ depth = 0 then .ok ([], cs)
    else do
      let (spec, rest) ← formatSpec
        (if c = '\x7b' then depth + 1 else if c = '\x7d' then depth - 1 else depth) cs
      return (c :: spec, rest)

def parseField (text : List Char) : Except PyError (Field × List Char) := do
  let (name, stop, rest) ← fieldName false text
  if stop = '\x7d' then return (⟨name, none, []⟩, rest)
  else if stop = ':' then
    let (spec, rest) ← formatSpec 0 rest
    return (⟨name, none, spec⟩, rest)
  else match rest with
    | [] => .error (.valueError "end of string while looking for conversion specifier")
    | [_] => .error (.valueError "unmatched '\x7b' in format spec")
    | conversion :: c :: rest =>
      if c = '\x7d' then return (⟨name, some conversion, []⟩, rest)
      else if c = ':' then
        let (spec, rest) ← formatSpec 0 rest
        return (⟨name, some conversion, spec⟩, rest)
      else .error (.valueError "expected ':' after conversion specifier")

def isBrace (c : Char) : Bool := c = '\x7b' || c = '\x7d'

/-- What is read at the brace that ends a literal text. -/
def atBrace (literal : List Char) : List Char → Except PyError (Markup × List Char)
  | [] => .ok (⟨literal, none⟩, [])
  | [brace] =>
    if brace = '\x7d' then .error (.valueError "Single '\x7d' encountered in format string")
    else .error (.valueError "Single '\x7b' encountered in format string")
  | brace :: c :: cs =>
    if c = brace then .ok (⟨literal ++ [brace], none⟩, cs)
    else if brace = '\x7d' then
      .error (.valueError "Single '\x7d' encountered in format string")
    else do
      let (field, rest) ← parseField (c :: cs)
      return (⟨literal, some field⟩, rest)

/-- `MarkupIterator_next` on a text that is not empty. -/
def nextMarkup (text : List Char) : Except PyError (Markup × List Char) :=
  atBrace (text.takeWhile fun c => !isBrace c) (text.dropWhile fun c => !isBrace c)

/-! ### Every step reads something -/

theorem fieldName_shorter {bracket : Bool} {text name rest : List Char} {stop : Char}
    (h : fieldName bracket text = .ok (name, stop, rest)) : rest.length < text.length := by
  induction text generalizing bracket name with
  | nil => cases h
  | cons c cs ih =>
    have hread : ∀ {b : Bool}, (do
        let (name, stop, rest) ← fieldName b cs
        return (c :: name, stop, rest) : Except PyError _) = .ok (name, stop, rest) →
        rest.length < (c :: cs).length := by
      intro b hb
      cases hcs : fieldName b cs with
      | error e => rw [hcs] at hb; cases hb
      | ok read =>
        rw [hcs] at hb
        obtain ⟨name', stop', rest'⟩ := read
        cases hb
        exact Nat.lt_succ_of_lt (ih hcs)
    rw [fieldName] at h
    split at h
    · exact hread h
    · split at h
      · cases h
      · split at h
        · cases h
          exact Nat.lt_succ_self _
        · exact hread h

theorem formatSpec_shorter {depth : Nat} {text spec rest : List Char}
    (h : formatSpec depth text = .ok (spec, rest)) : rest.length < text.length := by
  induction text generalizing depth spec with
  | nil => cases h
  | cons c cs ih =>
    rw [formatSpec] at h
    split at h
    · cases h
      exact Nat.lt_succ_self _
    · generalize (if c = '\x7b' then depth + 1 else if c = '\x7d' then depth - 1 else depth) = d
        at h
      cases hcs : formatSpec d cs with
      | error e => rw [hcs] at h; cases h
      | ok read =>
        rw [hcs] at h
        obtain ⟨spec', rest'⟩ := read
        cases h
        exact Nat.lt_succ_of_lt (ih hcs)

theorem parseField_shorter {text rest : List Char} {field : Field}
    (h : parseField text = .ok (field, rest)) : rest.length < text.length := by
  rw [parseField] at h
  cases hname : fieldName false text with
  | error e => rw [hname] at h; cases h
  | ok read =>
    obtain ⟨name, stop, left⟩ := read
    have hshorter := fieldName_shorter hname
    have hspec : ∀ {tail : List Char} {conversion : Option Char}, tail.length ≤ left.length →
        (do let (spec, rest) ← formatSpec 0 tail
            return (⟨name, conversion, spec⟩, rest) : Except PyError (Field × List Char))
          = .ok (field, rest) → rest.length < text.length := by
      intro tail conversion htail h
      cases hread : formatSpec 0 tail with
      | error e => rw [hread] at h; cases h
      | ok read =>
        obtain ⟨spec, rest'⟩ := read
        rw [hread] at h
        cases h
        have := formatSpec_shorter hread
        omega
    rw [hname] at h
    simp only [bind, Except.bind] at h
    split at h
    · cases h
      exact hshorter
    · split at h
      · exact hspec le_rfl h
      · split at h
        · cases h
        · cases h
        · split at h
          · cases h
            simp only [List.length_cons] at hshorter
            omega
          · split at h
            · exact hspec (by simp only [List.length_cons]; omega) h
            · cases h

theorem atBrace_shorter {literal text rest : List Char} {markup : Markup} (hne : text ≠ [])
    (h : atBrace literal text = .ok (markup, rest)) : rest.length < text.length := by
  match text with
  | [] => exact absurd rfl hne
  | [brace] =>
    rw [atBrace] at h
    split at h <;> cases h
  | brace :: c :: cs =>
    rw [atBrace] at h
    split at h
    · cases h
      simp only [List.length_cons]
      omega
    · split at h
      · cases h
      · cases hfield : parseField (c :: cs) with
        | error e => rw [hfield] at h; cases h
        | ok read =>
          obtain ⟨field, rest'⟩ := read
          rw [hfield] at h
          cases h
          exact Nat.lt_succ_of_lt (parseField_shorter hfield)

theorem nextMarkup_shorter {text rest : List Char} {markup : Markup} (hne : text ≠ [])
    (h : nextMarkup text = .ok (markup, rest)) : rest.length < text.length := by
  rw [nextMarkup] at h
  have hsplit := congrArg List.length (List.takeWhile_append_dropWhile (p := fun c => !isBrace c)
    (l := text))
  rw [List.length_append] at hsplit
  by_cases hdrop : (text.dropWhile fun c => !isBrace c) = []
  · rw [hdrop, atBrace] at h
    cases h
    exact List.length_pos_of_ne_nil hne
  · have := atBrace_shorter hdrop h
    omega

/-! ## Iterating -/

/-- The markups of a template up to its end or to the first error. -/
def markups (text : List Char) : List Markup × Option PyError :=
  if _hne : text = [] then ([], none)
  else match _hnext : nextMarkup text with
    | .error error => ([], some error)
    | .ok (markup, rest) =>
      let after := markups rest
      (markup :: after.1, after.2)
termination_by text.length
decreasing_by exact nextMarkup_shorter _hne _hnext

/-- `Formatter().parse(template)`, read to its end. -/
def parseTemplate (template : List Char) : Except PyError (List Markup) :=
  match markups template with
  | (read, none) => .ok read
  | (_, some error) => .error error

/-- What `str.format` without arguments raises for a field: no position and no name is bound. -/
def Field.unbound (field : Field) : PyError :=
  let root := field.name.takeWhile fun c => c ≠ '.' ∧ c ≠ '['
  if root.all Char.isDigit then .indexError else .keyError (String.ofList root)

/-- `str.format` without arguments, on the markups read so far. -/
def formatMarkups (error : Option PyError) : List Markup → Except PyError (List Char)
  | [] => match error with
      | none => .ok []
      | some error => .error error
  | ⟨literal, none⟩ :: rest => do
      let text ← formatMarkups error rest
      return literal ++ text
  | ⟨_, some field⟩ :: _ => .error field.unbound

/-- `template.format()`. -/
def formatTemplate (template : List Char) : Except PyError (List Char) :=
  formatMarkups (markups template).2 (markups template).1

/-! ## What a template without fields prints -/

theorem markups_nil : markups [] = ([], none) := by
  rw [markups]
  exact dif_pos rfl

theorem markups_next {text rest : List Char} {markup : Markup} (hne : text ≠ [])
    (h : nextMarkup text = .ok (markup, rest)) :
    markups text = (markup :: (markups rest).1, (markups rest).2) := by
  rw [markups, dif_neg hne]
  split
  · next hnext => rw [h] at hnext; cases hnext
  · next hnext =>
      rw [h] at hnext
      cases hnext
      rfl

theorem markups_stop {text : List Char} {error : PyError} (hne : text ≠ [])
    (h : nextMarkup text = .error error) : markups text = ([], some error) := by
  rw [markups, dif_neg hne]
  split
  · next hnext => rw [h] at hnext; cases hnext; rfl
  · next hnext => rw [h] at hnext; cases hnext

/-- The template is well formed. -/
def WellFormed (template : List Char) : Prop := (markups template).2 = none

/-- The template is well formed and has no replacement field. -/
def Fieldless (template : List Char) : Prop :=
  WellFormed template ∧ ∀ m ∈ (markups template).1, m.field = none

theorem parseTemplate_of_wellFormed {template : List Char} (h : WellFormed template) :
    parseTemplate template = .ok (markups template).1 := by
  rw [WellFormed] at h
  rw [parseTemplate]
  split
  · next hread => rw [hread]
  · next hread => rw [hread] at h; cases h

theorem parseTemplate_of_malformed {template : List Char} (h : ¬ WellFormed template) :
    ∃ error, parseTemplate template = .error error := by
  rw [WellFormed] at h
  rw [parseTemplate]
  split
  · next hread => rw [hread] at h; exact absurd rfl h
  · exact ⟨_, rfl⟩

theorem formatMarkups_ok_iff {error : Option PyError} {read : List Markup} :
    (∃ text, formatMarkups error read = .ok text) ↔ error = none ∧ ∀ m ∈ read, m.field = none := by
  induction read with
  | nil =>
    cases error with
    | none => simp [formatMarkups]
    | some error => simp [formatMarkups]
  | cons m read ih =>
    obtain ⟨literal, field⟩ := m
    cases field with
    | some field => simp [formatMarkups]
    | none =>
      rw [List.forall_mem_cons, formatMarkups]
      refine Iff.trans ?_ (ih.trans (by simp))
      constructor
      · rintro ⟨text, htext⟩
        cases hrest : formatMarkups error read with
        | error e => rw [hrest] at htext; cases htext
        | ok rest => exact ⟨rest, rfl⟩
      · rintro ⟨rest, hrest⟩
        exact ⟨literal ++ rest, by rw [hrest]; rfl⟩

/-- **Formatting without arguments** succeeds on the templates without fields, and on no other. -/
theorem formatTemplate_ok_iff {template : List Char} :
    (∃ text, formatTemplate template = .ok text) ↔ Fieldless template :=
  formatMarkups_ok_iff

/-- `ys` has the characters of `xs`, and begins and ends as `xs` does. -/
structure Unescapes (xs ys : List Char) : Prop where
  mem : ∀ c, c ∈ ys ↔ c ∈ xs
  first : ys.head? = xs.head?
  last : ys.getLast? = xs.getLast?

theorem Unescapes.refl (xs : List Char) : Unescapes xs xs := ⟨fun _ => Iff.rfl, rfl, rfl⟩

theorem Unescapes.append {xs ys us vs : List Char} (h : Unescapes xs ys) (h' : Unescapes us vs) :
    Unescapes (xs ++ us) (ys ++ vs) where
  mem c := by rw [List.mem_append, List.mem_append, h.mem, h'.mem]
  first := by rw [List.head?_append, List.head?_append, h.first, h'.first]
  last := by rw [List.getLast?_append, List.getLast?_append, h.last, h'.last]

theorem unescapes_doubled (brace : Char) : Unescapes [brace, brace] [brace] :=
  ⟨fun c => by simp, rfl, rfl⟩

theorem nextMarkup_literal {text literal rest : List Char}
    (h : nextMarkup text = .ok (⟨literal, none⟩, rest)) :
    ∃ read, text = read ++ rest ∧ Unescapes read literal := by
  rw [nextMarkup] at h
  have hsplit := List.takeWhile_append_dropWhile (p := fun c => !isBrace c) (l := text)
  generalize (text.takeWhile fun c => !isBrace c) = before at h hsplit
  generalize (text.dropWhile fun c => !isBrace c) = tail at h hsplit
  match tail with
  | [] =>
    rw [atBrace] at h
    cases h
    exact ⟨_, by rw [← hsplit], Unescapes.refl _⟩
  | [brace] =>
    rw [atBrace] at h
    split at h <;> cases h
  | brace :: c :: cs =>
    rw [atBrace] at h
    split at h
    · next hdouble =>
        subst hdouble
        cases h
        refine ⟨before ++ [c, c], ?_, (Unescapes.refl before).append (unescapes_doubled c)⟩
        rw [← hsplit, List.append_assoc]
        rfl
    · split at h
      · cases h
      · cases hfield : parseField (c :: cs) with
        | error e => rw [hfield] at h; cases h
        | ok read => rw [hfield] at h; cases h

/-- What formatting yields is the template without its escapes. -/
theorem formatTemplate_unescapes {template text : List Char}
    (h : formatTemplate template = .ok text) : Unescapes template text := by
  induction hn : template.length using Nat.strong_induction_on generalizing template text with
  | h n ih =>
    by_cases hne : template = []
    · subst hne
      rw [formatTemplate, markups_nil] at h
      cases h
      exact Unescapes.refl []
    · cases hnext : nextMarkup template with
      | error e =>
        rw [formatTemplate, markups_stop hne hnext] at h
        cases h
      | ok read =>
        obtain ⟨⟨literal, field⟩, rest⟩ := read
        rw [formatTemplate, markups_next hne hnext] at h
        cases field with
        | some field => cases h
        | none =>
          rw [formatMarkups] at h
          cases hrest : formatTemplate rest with
          | error e =>
            rw [formatTemplate] at hrest
            rw [hrest] at h
            cases h
          | ok tail =>
            have hrest' := hrest
            rw [formatTemplate] at hrest'
            rw [hrest'] at h
            cases h
            obtain ⟨read, hread, hunescapes⟩ := nextMarkup_literal hnext
            have htail := ih rest.length (hn ▸ nextMarkup_shorter hne hnext) hrest rfl
            rw [hread]
            exact hunescapes.append htail

end AtlasDb.Bdd
