import AtlasDb.Dialects.Identifiers

/-!
# Words of a statement

`classifier.py: _WORD, _SQL_KEYWORDS, _variables`. The words of a text are read from left to right,
a `@` or a `:` with the word that follows it. They are read over any alphabet whose elements stand
for characters, so that a character can carry what it belongs to.
-/

namespace AtlasDb.Dialects

open Core

/-! ## Reading words -/

/-- `[@:]` -/
def isSigil (c : Char) : Bool := c = '@' || c = ':'

/-- `[A-Za-z_$#]` -/
def isWordStart (c : Char) : Bool := c.isAlpha || c = '_' || c = '$' || c = '#'

/-- `[A-Za-z0-9_$#]` -/
def isWordPart (c : Char) : Bool := isWordStart c || c.isDigit

section Words

variable {α : Type} (char : α → Char)

/-- What has been read: a word, or what may be the sigil of the next one. -/
inductive Reading (α : Type) where
  | outside (sigil : List α)
  | inside (word : List α)

/-- What a character begins that is not part of the word in front of it. -/
def beginReading (sigil : List α) (x : α) : Reading α :=
  if isWordStart (char x) then .inside (sigil ++ [x])
  else if isSigil (char x) then .outside [x]
  else .outside []

def wordsFrom : Reading α → List α → List (List α)
  | .outside _, [] => []
  | .inside word, [] => [word]
  | .outside sigil, x :: xs => wordsFrom (beginReading char sigil x) xs
  | .inside word, x :: xs =>
    if isWordPart (char x) then wordsFrom (.inside (word ++ [x])) xs
    else word :: wordsFrom (beginReading char [] x) xs

/-- `_WORD.finditer` -/
def wordsOf (text : List α) : List (List α) := wordsFrom char (.outside []) text

end Words

/-- The words of a text. -/
abbrev words (text : List Char) : List (List Char) := wordsOf id text

/-- A character that is neither part of a word nor a sigil. -/
def isInert (c : Char) : Bool := !isWordPart c && !isSigil c

section Words

variable {α : Type} {char : α → Char}

theorem isWordPart_of_start {c : Char} (h : isWordStart c = true) : isWordPart c = true := by
  rw [isWordPart, h, Bool.true_or]

theorem beginReading_inert {x : α} (h : isInert (char x) = true) (sigil : List α) :
    beginReading char sigil x = .outside [] := by
  rw [isInert, Bool.and_eq_true, Bool.not_eq_true', Bool.not_eq_true'] at h
  have hstart : isWordStart (char x) = false := by
    by_contra hstart
    rw [Bool.not_eq_false] at hstart
    exact absurd (isWordPart_of_start hstart) (by rw [h.1]; exact Bool.false_ne_true)
  unfold beginReading
  rw [hstart, h.2]
  rfl

theorem wordsFrom_inert {blank : List α} (h : ∀ x ∈ blank, isInert (char x) = true)
    (sigil : List α) :
    wordsFrom char (.outside sigil) blank = [] := by
  induction blank generalizing sigil with
  | nil => rfl
  | cons x blank ih =>
    rw [wordsFrom, beginReading_inert (h x List.mem_cons_self)]
    exact ih (fun y hy => h y (List.mem_cons_of_mem x hy)) []

theorem wordsOf_inert_append {blank : List α} (h : ∀ x ∈ blank, isInert (char x) = true)
    (text : List α) : wordsOf char (blank ++ text) = wordsOf char text := by
  unfold wordsOf
  induction blank with
  | nil => rfl
  | cons x blank ih =>
    rw [List.cons_append, wordsFrom, beginReading_inert (h x List.mem_cons_self)]
    exact ih fun y hy => h y (List.mem_cons_of_mem x hy)

theorem wordsFrom_append_inert {blank : List α} (h : ∀ x ∈ blank, isInert (char x) = true)
    (state : Reading α) (text : List α) :
    wordsFrom char state (text ++ blank) = wordsFrom char state text := by
  induction text generalizing state with
  | nil =>
    rw [List.nil_append]
    cases state with
    | outside sigil => exact wordsFrom_inert h sigil
    | inside word =>
      cases blank with
      | nil => rfl
      | cons x blank =>
        have hx := h x List.mem_cons_self
        have hpart : isWordPart (char x) = false := by
          rw [isInert, Bool.and_eq_true, Bool.not_eq_true'] at hx
          exact hx.1
        show (if isWordPart (char x) then wordsFrom char (.inside (word ++ [x])) blank
          else word :: wordsFrom char (beginReading char [] x) blank) = [word]
        rw [hpart, if_neg Bool.false_ne_true, beginReading_inert hx,
          wordsFrom_inert (fun y hy => h y (List.mem_cons_of_mem x hy))]
  | cons x text ih =>
    cases state with
    | outside sigil => exact ih _
    | inside word =>
      rw [List.cons_append, wordsFrom, wordsFrom, ih, ih]

theorem wordsOf_inert_around {front blank : List α} (hfront : ∀ x ∈ front, isInert (char x) = true)
    (hblank : ∀ x ∈ blank, isInert (char x) = true) (text : List α) :
    wordsOf char (front ++ (text ++ blank)) = wordsOf char text := by
  rw [wordsOf_inert_append hfront]
  exact wordsFrom_append_inert hblank _ text

end Words

theorem toNat_of_not_inert {c : Char} (h : isInert c = false) : 35 ≤ c.toNat ∧ c.toNat ≤ 122 := by
  simp only [isInert, isWordPart, isWordStart, isSigil, Bool.and_eq_false_iff, Bool.not_eq_false',
    Bool.or_eq_true, decide_eq_true_eq] at h
  have hval : c.toNat = c.val.toNat := rfl
  rcases h with ((((h | rfl) | rfl) | rfl) | h) | (rfl | rfl)
  · have := Text.isAlpha_iff.mp h
    omega
  all_goals try decide
  have hdigit : 48 ≤ c.val ∧ c.val ≤ 57 := by simpa [Char.isDigit] using h
  have := UInt32.le_iff_toNat_le.mp hdigit.1
  have := UInt32.le_iff_toNat_le.mp hdigit.2
  simp only [UInt32.reduceToNat] at *
  omega

theorem isSpace_of_toNat {c : Char} (h : 33 ≤ c.toNat ∧ c.toNat ≤ 126) :
    Text.isSpace c = false := by
  simp [Text.isSpace]
  omega

theorem isInert_of_isSpace {c : Char} (h : Text.isSpace c = true) : isInert c = true := by
  by_contra hinert
  have hrange := toNat_of_not_inert (Bool.not_eq_true _ ▸ hinert)
  rw [isSpace_of_toNat (by omega)] at h
  exact Bool.false_ne_true h

/-! ## Variables -/

/-- `_SQL_KEYWORDS` -/
def sqlKeywords : List String :=
  ["SELECT", "FROM", "WHERE", "JOIN", "LEFT", "RIGHT", "FULL", "INNER", "OUTER", "ON", "AND",
    "OR", "NOT",
    "NULL", "TRUE", "FALSE", "CASE", "WHEN", "THEN", "ELSE", "END", "IF", "BEGIN", "LOOP",
      "WHILE", "FOR",
    "INSERT", "INTO", "VALUES", "UPDATE", "SET", "DELETE", "MERGE", "USING", "MATCHED",
      "CALL", "EXEC",
    "EXECUTE", "RETURN", "RAISE", "SIGNAL", "THROW", "DECLARE", "CURSOR", "OPEN", "FETCH", "CLOSE",
    "COMMIT", "ROLLBACK", "SAVEPOINT", "AS", "IS", "LANGUAGE", "PROCEDURE", "FUNCTION",
      "CREATE", "ALTER",
    "REPLACE", "OUTPUT", "OUT", "IN", "INOUT", "DEFAULT", "CURRENT", "GET", "DIAGNOSTICS",
      "EXCEPTION",
    "OTHERS", "TRY", "CATCH", "PERFORM", "QUERY", "PRAGMA", "ASSERT", "FORALL", "BULK",
      "COLLECT", "GOTO",
    "LOCK", "TRUNCATE", "PRINT", "NOTICE", "WARNING", "INFO", "DEBUG", "LOG", "DO", "CONDITION",
    "ISOLATION", "LEVEL", "XACT_ABORT", "ROWCOUNT", "IDENTITY"]

/-- `str.lstrip('@:')` -/
def lstripSigils (text : List Char) : List Char := text.dropWhile isSigil

/-- `raw.upper() in _SQL_KEYWORDS` -/
def isSqlKeyword (word : List Char) : Bool :=
  sqlKeywords.any fun keyword => keyword.toList = Text.upper (lstripSigils word)

/-- `normalize_variable` -/
def DialectNormalizer.normalizeVariable (n : DialectNormalizer) (casing : Casing)
    (value : List Char) :
    List Char :=
  n.normalizeIdentifier casing (lstripSigils (Text.strip value))

/-- `_variables`; a word is never made of digits only, so that `raw.isdigit()` holds of none. -/
def variablesOf (n : DialectNormalizer) (casing : Casing) (text : List Char) : List (List Char) :=
  ((words text).filter fun word => !isSqlKeyword word).foldl
    (fun values word =>
      if n.normalizeVariable casing word ∈ values then values
      else values ++ [n.normalizeVariable casing word]) []

theorem mem_foldl_unlessMem (f : List Char → List Char) (xs values : List (List Char))
    (v : List Char) :
    v ∈ xs.foldl (fun values x => if f x ∈ values then values else values ++ [f x]) values ↔
      v ∈ values ∨ ∃ x ∈ xs, f x = v := by
  induction xs generalizing values with
  | nil => simp
  | cons x xs ih =>
    rw [List.foldl_cons, ih, List.exists_mem_cons_iff, ← or_assoc]
    apply or_congr_left
    split
    · next h =>
        constructor
        · exact Or.inl
        · rintro (hv | rfl)
          · exact hv
          · exact h
    · rw [List.mem_append, List.mem_singleton, eq_comm (a := v)]

theorem mem_variablesOf {n : DialectNormalizer} {casing : Casing} {text v : List Char} :
    v ∈ variablesOf n casing text ↔
      ∃ word ∈ words text, isSqlKeyword word = false ∧ n.normalizeVariable casing word = v := by
  rw [variablesOf, mem_foldl_unlessMem]
  simp only [List.not_mem_nil, false_or, List.mem_filter, Bool.not_eq_true', and_assoc]

end AtlasDb.Dialects
