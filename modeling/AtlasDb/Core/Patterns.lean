import AtlasDb.Lib.Pattern
import AtlasDb.Core.Regex
import Mathlib.Data.List.Forall2

/-!
# Patterns of text

The pieces Python's regular expressions are put together from, as patterns of the library. What
counts as one letter, as a character of a word and as an upper case is a parameter, so that a result
about a pattern holds of the whole of Unicode; white space is that of `Text.isSpace`.
-/

namespace AtlasDb.Core

open Lib

/-- What the standard library takes for one letter under `re.IGNORECASE`, for a character of `\w`,
and for the upper case of a text. -/
structure Letters where
  same : Char → Char → Bool
  isWord : Char → Bool
  upper : List Char → List Char

def Letters.ascii : Letters where
  same c d := c.toUpper = d.toUpper
  isWord := Regex.isWordChar
  upper := Text.upper

namespace Letters

variable (letters : Letters)

/-- A keyword, in either case. -/
def word (text : String) : Pattern Char :=
  text.toList.foldr (fun c r => .seq (.one (letters.same c)) r) .empty

/-- `[A-Z_$#]` -/
def isLabelStart (c : Char) : Bool :=
  "ABCDEFGHIJKLMNOPQRSTUVWXYZ".toList.any (letters.same · c) || c = '_' || c = '$' || c = '#'

/-- `[A-Z_$#][A-Z0-9_$#]*` -/
def label : Pattern Char :=
  .seq (.one letters.isLabelStart) (.star true (.one fun c => letters.isLabelStart c || c.isDigit))

/-- `\b` -/
def boundary : Pattern Char :=
  .between fun prev next => (prev.any letters.isWord) != (next.any letters.isWord)

end Letters

namespace Patterns

def concat (ps : List (Pattern Char)) : Pattern Char := ps.foldr .seq .empty

def oneOf (ps : List (Pattern Char)) : Pattern Char := ps.foldr .alt (.one fun _ => false)

def optional (p : Pattern Char) : Pattern Char := .alt p .empty

def space : Pattern Char := .one Text.isSpace

/-- `\s+` -/
def spaces : Pattern Char := .seq space (.star true space)

def anyChar : Pattern Char := .one fun _ => true

/-- `.+`, and `.+?` when it is not greedy. -/
def anything (greedy : Bool) : Pattern Char := .seq anyChar (.star greedy anyChar)

/-- `^` -/
def atStart : Pattern Char := .between fun prev _ => prev.isNone

/-- `$`: at the end, or in front of a line break there. -/
def dollar : Pattern Char :=
  .notAhead (.notAhead (.seq (optional (.one (· = '\n'))) (.between fun _ next => next.isNone)))

/-! ## What they match -/

@[simp] theorem groupFree_word (letters : Letters) (text : String) :
    (letters.word text).groupFree = true := by
  unfold Letters.word
  induction text.toList with
  | nil => rfl
  | cons c cs ih => exact ih

@[simp] theorem groupFree_concat (ps : List (Pattern Char)) :
    (concat ps).groupFree = ps.all Pattern.groupFree := by
  induction ps with
  | nil => rfl
  | cons p ps ih => rw [List.all_cons, ← ih]; rfl

@[simp] theorem groupFree_oneOf (ps : List (Pattern Char)) :
    (oneOf ps).groupFree = ps.all Pattern.groupFree := by
  induction ps with
  | nil => rfl
  | cons p ps ih => rw [List.all_cons, ← ih]; rfl

@[simp] theorem groupFree_spaces : spaces.groupFree = true := rfl

@[simp] theorem groupFree_anything (greedy : Bool) : (anything greedy).groupFree = true := rfl

@[simp] theorem groupFree_label (letters : Letters) : letters.label.groupFree = true := rfl

@[simp] theorem groupFree_optional (p : Pattern Char) : (optional p).groupFree = p.groupFree := by
  rw [optional, Pattern.groupFree, Pattern.groupFree, Bool.and_true]

variable {groups : Pattern.Groups Char}

theorem blank_of_spaces {prev : Option Char} {read rest : List Char}
    (h : spaces.Matches prev read rest groups) : ∀ c ∈ read, Text.isSpace c = true := by
  obtain ⟨first, second, _, _, rfl, -, ⟨⟨x, hx, rfl⟩, -⟩, hsecond⟩ := h
  intro c hc
  rcases List.mem_cons.mp hc with rfl | hc
  · exact hx
  · exact (Pattern.matches_star_one_iff.mp hsecond).1 c hc

/-- A text is the word, in either case. -/
def Spells (letters : Letters) (word : String) (text : List Char) : Prop :=
  List.Forall₂ (fun c d => letters.same c d = true) word.toList text

theorem matches_word_iff {letters : Letters} {word : String} {prev : Option Char}
    {read rest : List Char} :
    (letters.word word).Matches prev read rest groups ↔ Spells letters word read ∧ groups = [] := by
  unfold Letters.word Spells
  induction word.toList generalizing prev read groups with
  | nil => exact ⟨fun h => ⟨List.forall₂_nil_left_iff.mpr h.1, h.2⟩,
      fun h => ⟨List.forall₂_nil_left_iff.mp h.1, h.2⟩⟩
  | cons c cs ih =>
    constructor
    · rintro ⟨_, second, _, _, rfl, rfl, ⟨⟨d, hd, rfl⟩, rfl⟩, hsecond⟩
      obtain ⟨hspells, rfl⟩ := ih.mp hsecond
      exact ⟨.cons hd hspells, rfl⟩
    · rintro ⟨hspells, rfl⟩
      cases hspells with
      | @cons _ d _ second hd hspells =>
        exact ⟨[d], second, [], [], rfl, rfl, ⟨⟨d, hd, rfl⟩, rfl⟩, ih.mpr ⟨hspells, rfl⟩⟩

theorem blank_of_dollar {prev : Option Char} {read rest : List Char}
    (h : dollar.Matches prev read rest groups) :
    (∀ c ∈ rest, Text.isSpace c = true) ∧ read = [] ∧ groups = [] := by
  obtain ⟨hahead, rfl, rfl⟩ := h
  refine ⟨?_, rfl, rfl⟩
  have hend : ∃ read' rest' groups', read' ++ rest' = rest ∧
      (Pattern.seq (optional (.one (· = '\n'))) (.between fun _ next => next.isNone)).Matches
        prev read' rest' groups' := by
    by_contra hnone
    push Not at hnone
    exact hahead [] rest [] rfl ⟨fun _ _ _ happ hm => hnone _ _ _ happ hm, rfl, rfl⟩
  obtain ⟨read', rest', _, rfl, first, second, _, _, rfl, -, hfirst, hnext, rfl, -⟩ := hend
  obtain rfl : rest' = [] := by
    cases rest' with
    | nil => rfl
    | cons c cs => exact absurd hnext (by simp)
  rw [List.append_nil, List.append_nil]
  rcases hfirst with ⟨⟨x, hx, rfl⟩, -⟩ | ⟨rfl, -⟩
  · intro c hc
    rw [List.mem_singleton.mp hc, of_decide_eq_true hx]
    decide
  · exact fun _ hc => absurd hc List.not_mem_nil

end Patterns

end AtlasDb.Core
