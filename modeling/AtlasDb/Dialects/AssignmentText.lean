import AtlasDb.Dialects.InlineExpansion
import AtlasDb.Dialects.Variables
import Mathlib.Data.Bool.AllAny

/-!
# Assignments

`classifier.py: _assignment`. Three forms of statements are read as assignments, each by a pattern
with two groups. `AssignmentForm.Fits` says what such a text is made of, without an order of
attempts; a text has at most one target and one right side (`Assigns.unique`), and the patterns find
them (`assignment_eq_some`, `assignment_eq_none`).
-/

namespace AtlasDb.Dialects

open Core Core.Patterns Lib

/-! ## The patterns -/

/-- The letter `re.IGNORECASE` compares a character by: besides the ASCII letters there are a
capital I with a dot, a small i without one, the long s and the Kelvin sign. -/
def ignoredCase (c : Char) : Char :=
  if c = 'ı' ||
    c = 'İ' then 'I' else if c = 'ſ' then 'S' else if c = '\u212A' then 'K' else c.toUpper

/-- `re.IGNORECASE` on patterns of ASCII; which characters are those of `\w` is left open. -/
def ignoreCase (isWord : Char → Bool) : Letters where
  same c d := c.toUpper = ignoredCase d
  isWord := isWord
  upper := Text.upper

/-- A statement that is read as an assignment. -/
structure AssignmentForm where
  keyword : Option String
  /-- `[@:]?`, or else `@` -/
  optionalSigil : Bool := true
  operators : List String

def setForm : AssignmentForm where
  keyword := some "SET"
  operators := [":=", "=", "+=", "-=", "*=", "/="]

def colonForm : AssignmentForm where
  keyword := none
  operators := [":="]

def selectForm : AssignmentForm where
  keyword := some "SELECT"
  optionalSigil := false
  operators := ["="]

/-- `patterns` of `_assignment` -/
def assignmentForms (dialect : DialectId) : List AssignmentForm :=
  [setForm, colonForm] ++ if dialect = .sqlserverTsql then [selectForm] else []

section
variable (letters : Letters)

/-- `[A-Z0-9_$#.]` -/
def isTargetPart (c : Char) : Bool := letters.isLabelStart c || c.isDigit || c = '.'

/-- `[A-Z_$#][A-Z0-9_$#.]*` -/
def targetName : Pattern Char :=
  .seq (.one letters.isLabelStart) (.star true (.one (isTargetPart letters)))

namespace AssignmentForm

def sigilPattern (form : AssignmentForm) : Pattern Char :=
  if form.optionalSigil then optional (.one isSigil) else .one (· = '@')

def headPattern (form : AssignmentForm) : Pattern Char :=
  match form.keyword with
  | none => .empty
  | some keyword => .seq (letters.word keyword) spaces

def pattern (form : AssignmentForm) : Pattern Char :=
  concat [atStart, .star true space, form.headPattern letters,
    .group 1 (.seq form.sigilPattern (targetName letters)), .star true space,
    oneOf (form.operators.map letters.word), .star true space, .group 2 (anything false),
    .star true space, optional (.one (· = ';')), dollar]

end AssignmentForm

/-- `_assignment`: the target without its sigil, and the right side. -/
def assignment (dialect : DialectId) (text : List Char) : Option (List Char × List Char) :=
  (assignmentForms dialect).findSome? fun form =>
    ((form.pattern letters).firstMatch text).map fun m =>
      (lstripSigils (Inline.groupOf m 1), Inline.rstripSemicolons (Text.strip (Inline.groupOf m 2)))

end

/-! ## What they stand for -/

/-- White space only. -/
def Blank (text : List Char) : Prop := ∀ c ∈ text, Text.isSpace c = true

/-- A name as a target is written, its sigil aside. -/
def IsTargetName (letters : Letters) (name : List Char) : Prop :=
  (∃ c ∈ name.head?, letters.isLabelStart c = true) ∧ ∀ c ∈ name, isTargetPart letters c = true

namespace AssignmentForm

def AllowsSigil (form : AssignmentForm) (sigil : List Char) : Prop :=
  sigil = ['@'] ∨ form.optionalSigil = true ∧ (sigil = [] ∨ sigil = [':'])

/-- What stands in front of the target. -/
def IsHead (letters : Letters) (form : AssignmentForm) (head : List Char) : Prop :=
  match form.keyword with
  | none => head = []
  | some keyword =>
    ∃ word gap, head = word ++ gap ∧ Spells letters keyword word ∧ Blank gap ∧ gap ≠ []

/-- The text begins with a target and an operator of the form, and `rest` is what follows these. -/
structure Fits (letters : Letters) (form : AssignmentForm) (text name rest : List Char) : Prop where
  named : IsTargetName letters name
  parts : ∃ lead head sigil gap operator, Blank lead ∧ form.IsHead letters head ∧
    form.AllowsSigil sigil ∧ Blank gap ∧ operator ∈ form.operators.map String.toList ∧ rest ≠ [] ∧
    text = lead ++ (head ++ (sigil ++ (name ++ (gap ++ (operator ++ rest)))))

end AssignmentForm

/-- The text is read as an assignment to the name, with `rest` behind the operator. -/
def Assigns (letters : Letters) (dialect : DialectId) (text name rest : List Char) : Prop :=
  ∃ form ∈ assignmentForms dialect, form.Fits letters text name rest

/-! ## Classes of characters -/

theorem divided_eq {p : Char → Bool} {a b a' b' : List Char} (ha : ∀ c ∈ a, p c = true)
    (ha' : ∀ c ∈ a', p c = true) (hb : ∀ c ∈ b.head?, p c = false)
    (hb' : ∀ c ∈ b'.head?, p c = false) (h : a ++ b = a' ++ b') : a = a' ∧ b = b' := by
  have htake (a b : List Char) (ha : ∀ c ∈ a, p c = true) (hb : ∀ c ∈ b.head?, p c = false) :
      (a ++ b).takeWhile p = a := by
    rw [List.takeWhile_append_of_pos ha]
    cases b with
    | nil => rw [List.takeWhile_nil, List.append_nil]
    | cons c b =>
      rw [List.takeWhile_cons_of_neg (by rw [hb c rfl]; exact Bool.false_ne_true), List.append_nil]
  have heq : a = a' := by rw [← htake a b ha hb, h, htake a' b' ha' hb']
  subst heq
  exact ⟨rfl, List.append_cancel_left h⟩

section Classes

variable {isWord : Char → Bool}

variable {c : Char}

theorem letter_of_ignoredCase (h : 65 ≤ (ignoredCase c).toNat ∧ (ignoredCase c).toNat ≤ 90) :
    (65 ≤ c.toNat ∧ c.toNat ≤ 90 ∨ 97 ≤ c.toNat ∧ c.toNat ≤ 122) ∨
      c = 'ı' ∨ c = 'İ' ∨ c = 'ſ' ∨ c = '\u212A' := by
  unfold ignoredCase at h
  split at h
  · next hi => simp only [Bool.or_eq_true, decide_eq_true_eq] at hi; tauto
  split at h
  · tauto
  split at h
  · tauto
  · rcases Text.toUpper_letter c with heq | ⟨hlower, -⟩
    · rw [heq] at h
      exact .inl (.inl h)
    · exact .inl (.inr hlower)

/-- A target holds no blanks and no marks. -/
theorem isTargetPart_ne (h : isTargetPart (ignoreCase isWord) c = true) :
    Text.isSpace c = false ∧ c ∉ ['@', ':', '=', '+', '-', '*', '/'] := by
  have hcases : (65 ≤ c.toNat ∧ c.toNat ≤ 90 ∨ 97 ≤ c.toNat ∧ c.toNat ≤ 122) ∨
      (48 ≤ c.toNat ∧ c.toNat ≤ 57) ∨
      c ∈ ['ı', 'İ', 'ſ', '\u212A', '_', '$', '#', '.'] := by
    simp only [isTargetPart, Letters.isLabelStart, ignoreCase, Bool.or_eq_true, decide_eq_true_eq,
      List.any_eq_true] at h
    rcases h with ((((⟨d, hd, hsame⟩ | h) | h) | h) | h) | h
    · have hletters : ∀ d ∈ "ABCDEFGHIJKLMNOPQRSTUVWXYZ".toList,
          65 ≤ d.toUpper.toNat ∧ d.toUpper.toNat ≤ 90 :=
        List.all_iff_forall_prop.mp (by decide +kernel)
      have hletter := hletters d hd
      rw [hsame] at hletter
      rcases letter_of_ignoredCase hletter with h | h
      · exact .inl h
      · right; right; rcases h with h | h | h | h <;> simp [h]
    · right; right; simp [h]
    · right; right; simp [h]
    · right; right; simp [h]
    · have hdigit : 48 ≤ c.val ∧ c.val ≤ 57 := by simpa [Char.isDigit] using h
      exact .inr (.inl ⟨UInt32.le_iff_toNat_le.mp hdigit.1, UInt32.le_iff_toNat_le.mp hdigit.2⟩)
    · right; right; simp [h]
  rcases hcases with h | h | h
  · refine ⟨isSpace_of_toNat (by omega), fun hmem => ?_⟩
    have hother : ∀ d ∈ ['@', ':', '=', '+', '-', '*', '/'], d.toNat ≤ 64 :=
      List.all_iff_forall_prop.mp (by decide)
    have := hother c hmem
    omega
  · refine ⟨isSpace_of_toNat (by omega), fun hmem => ?_⟩
    have hother : ∀ d ∈ ['@', ':', '=', '+', '-', '*', '/'], d.toNat < 48 ∨ 57 < d.toNat :=
      List.all_iff_forall_prop.mp (by decide)
    have := hother c hmem
    omega
  · have hother : ∀ d ∈ ['ı', 'İ', 'ſ', '\u212A', '_', '$', '#', '.'],
        Text.isSpace d = false ∧ d ∉ ['@', ':', '=', '+', '-', '*', '/'] :=
      List.all_iff_forall_prop.mp (by decide +kernel)
    exact hother c h

theorem isTargetPart_of_isLabelStart {letters : Letters}
    (h : letters.isLabelStart c = true) : isTargetPart letters c = true := by
  rw [isTargetPart, h]
  rfl

theorem isTargetPart_of_isSpace (h : Text.isSpace c = true) :
    isTargetPart (ignoreCase isWord) c = false := by
  by_contra hpart
  have hspace := (isTargetPart_ne (Bool.not_eq_false _ ▸ hpart)).1
  exact Bool.false_ne_true (hspace.symm.trans h)

theorem isTargetPart_of_mem (h : c ∈ ['@', ':', '=', '+', '-', '*', '/']) :
    isTargetPart (ignoreCase isWord) c = false := by
  by_contra hpart
  exact (isTargetPart_ne (Bool.not_eq_false _ ▸ hpart)).2 h

theorem isSigil_iff : isSigil c = true ↔ c = '@' ∨ c = ':' := by
  simp only [isSigil, Bool.or_eq_true, decide_eq_true_eq]

theorem isSigil_of_isTargetPart (h : isTargetPart (ignoreCase isWord) c = true) :
    isSigil c = false := by
  by_contra hsigil
  rw [Bool.not_eq_false, isSigil_iff] at hsigil
  refine (isTargetPart_ne h).2 ?_
  rcases hsigil with rfl | rfl
  · exact List.mem_cons_self
  · exact List.mem_cons_of_mem _ List.mem_cons_self

theorem Spells.isTargetPart {word : String} {text : List Char}
    (h : Spells (ignoreCase isWord) word text)
    (hword : ∀ c ∈ word.toList, c ∈ "ABCDEFGHIJKLMNOPQRSTUVWXYZ".toList) :
    ∀ c ∈ text, isTargetPart (ignoreCase isWord) c = true := by
  intro c hc
  obtain ⟨d, hd, hsame⟩ := Inline.exists_of_forall₂ h hc
  apply isTargetPart_of_isLabelStart
  have hany : ("ABCDEFGHIJKLMNOPQRSTUVWXYZ".toList.any ((ignoreCase isWord).same · c)) = true :=
    List.any_eq_true.mpr ⟨d, hword d hd, hsame⟩
  rw [Letters.isLabelStart, hany]
  rfl

end Classes

/-! ## One reading of a text -/

variable {form : AssignmentForm}

section Unique

variable {isWord : Char → Bool}
  {sigil name gap operator rest sigil' name' gap' operator' rest' : List Char}

/-- The operators of the three forms. -/
def assignmentOperators : List (List Char) :=
  [[':', '='], ['='], ['+', '='], ['-', '='], ['*', '='], ['/', '=']]

theorem operator_unique (h : operator ∈ assignmentOperators) (h' : operator' ∈ assignmentOperators)
    (heq : operator ++ rest = operator' ++ rest') : operator = operator' ∧ rest = rest' := by
  simp only [assignmentOperators, List.mem_cons, List.not_mem_nil, or_false] at h h'
  rcases h with rfl | rfl | rfl | rfl | rfl | rfl <;>
    rcases h' with rfl | rfl | rfl | rfl | rfl | rfl <;> simp_all

theorem operator_head (h : operator ∈ assignmentOperators) (rest : List Char) :
    ∃ c ∈ (operator ++ rest).head?, c ∈ [':', '=', '+', '-', '*', '/'] := by
  simp only [assignmentOperators, List.mem_cons, List.not_mem_nil, or_false] at h
  rcases h with rfl | rfl | rfl | rfl | rfl | rfl <;> simp

theorem operator_not_space (h : operator ∈ assignmentOperators) :
    ∀ c ∈ (operator ++ rest).head?, Text.isSpace c = false := by
  obtain ⟨d, hd, hmem⟩ := operator_head h rest
  intro c hc
  obtain rfl : c = d := Option.mem_unique hc hd
  have hother : ∀ d ∈ [':', '=', '+', '-', '*', '/'], Text.isSpace d = false :=
    List.all_iff_forall_prop.mp (by decide)
  exact hother c hmem

theorem after_name (hgap : Blank gap) (h : operator ∈ assignmentOperators) :
    ∀ c ∈ (gap ++ (operator ++ rest)).head?, isTargetPart (ignoreCase isWord) c = false := by
  intro c hc
  cases gap with
  | nil =>
    obtain ⟨d, hd, hmem⟩ := operator_head h rest
    obtain rfl : c = d := Option.mem_unique hc hd
    exact isTargetPart_of_mem (List.mem_cons_of_mem _ hmem)
  | cons d gap =>
    obtain rfl : d = c := by simpa using hc
    exact isTargetPart_of_isSpace (hgap d List.mem_cons_self)

theorem IsTargetName.head_isTargetPart (h : IsTargetName (ignoreCase isWord) name)
    (rest : List Char) :
    ∀ c ∈ (name ++ rest).head?, isTargetPart (ignoreCase isWord) c = true := by
  obtain ⟨⟨d, hd, -⟩, hall⟩ := h
  intro c hc
  cases name with
  | nil => exact absurd hd (by simp)
  | cons e name =>
    obtain rfl : e = c := by simpa using hc
    exact hall e List.mem_cons_self

theorem AssignmentForm.AllowsSigil.isSigil (h : form.AllowsSigil sigil) :
    ∀ c ∈ sigil, isSigil c = true := by
  rcases h with rfl | ⟨-, rfl | rfl⟩
  · exact fun c hc => List.mem_singleton.mp hc ▸ rfl
  · exact fun c hc => absurd hc List.not_mem_nil
  · exact fun c hc => List.mem_singleton.mp hc ▸ rfl

theorem target_not_space (hsigil : form.AllowsSigil sigil)
    (hname : IsTargetName (ignoreCase isWord) name) :
    ∀ c ∈ (sigil ++ (name ++ rest)).head?, Text.isSpace c = false := by
  intro c hc
  cases sigil with
  | nil => exact (isTargetPart_ne (hname.head_isTargetPart rest c hc)).1
  | cons d sigil =>
    obtain rfl : d = c := by simpa using hc
    rcases isSigil_iff.mp (hsigil.isSigil d List.mem_cons_self) with rfl | rfl
    · decide
    · decide

theorem target_unique {form form' : AssignmentForm} (hsigil : form.AllowsSigil sigil)
    (hsigil' : form'.AllowsSigil sigil') (hname : IsTargetName (ignoreCase isWord) name)
    (hname' : IsTargetName (ignoreCase isWord) name') (hgap : Blank gap) (hgap' : Blank gap')
    (hop : operator ∈ assignmentOperators) (hop' : operator' ∈ assignmentOperators)
    (h : sigil ++ (name ++ (gap ++ (operator ++ rest))) =
      sigil' ++ (name' ++ (gap' ++ (operator' ++ rest')))) :
    name = name' ∧ rest = rest' := by
  obtain ⟨-, h⟩ := divided_eq hsigil.isSigil hsigil'.isSigil
    (fun c hc => isSigil_of_isTargetPart (hname.head_isTargetPart _ c hc))
    (fun c hc => isSigil_of_isTargetPart (hname'.head_isTargetPart _ c hc)) h
  obtain ⟨hsame, h⟩ := divided_eq hname.2 hname'.2 (after_name hgap hop) (after_name hgap' hop') h
  obtain ⟨-, h⟩ := divided_eq hgap hgap' (operator_not_space hop) (operator_not_space hop') h
  exact ⟨hsame, (operator_unique hop hop' h).2⟩

/-- The forms with a keyword. -/
def AssignmentForm.HasKeyword (form : AssignmentForm) (keyword : String) : Prop :=
  form.keyword = some keyword ∧ (keyword = "SET" ∨ keyword = "SELECT")

theorem assignmentForms_cases {dialect : DialectId} (h : form ∈ assignmentForms dialect) :
    (form.keyword = none ∧ form.operators = [":="] ∨ ∃ keyword, form.HasKeyword keyword) ∧
      ∀ operator ∈ form.operators.map String.toList, operator ∈ assignmentOperators := by
  have hcases : form = setForm ∨ form = colonForm ∨ form = selectForm := by
    unfold assignmentForms at h
    split at h
    · simpa using h
    · rcases (by simpa using h : form = setForm ∨ form = colonForm) with rfl | rfl
      · exact .inl rfl
      · exact .inr (.inl rfl)
  rcases hcases with rfl | rfl | rfl
  · exact ⟨.inr ⟨"SET", rfl, .inl rfl⟩, by decide +kernel⟩
  · exact ⟨.inl ⟨rfl, rfl⟩, by decide +kernel⟩
  · exact ⟨.inr ⟨"SELECT", rfl, .inr rfl⟩, by decide +kernel⟩

section Keywords

variable {word word' : List Char} {keyword keyword' : String}

theorem keyword_isTargetPart (hkeyword : keyword = "SET" ∨ keyword = "SELECT")
    (h : Spells (ignoreCase isWord) keyword word) :
    (∀ c ∈ word, isTargetPart (ignoreCase isWord) c = true) ∧ word ≠ [] := by
  have hcapitals : ∀ c ∈ keyword.toList, c ∈ "ABCDEFGHIJKLMNOPQRSTUVWXYZ".toList := by
    rcases hkeyword with rfl | rfl
    · exact List.all_iff_forall_prop.mp (by decide +kernel)
    · exact List.all_iff_forall_prop.mp (by decide +kernel)
  refine ⟨Spells.isTargetPart h hcapitals, ?_⟩
  rintro rfl
  have hlength := List.Forall₂.length_eq h
  rcases hkeyword with rfl | rfl
  · exact absurd hlength (by decide)
  · exact absurd hlength (by decide)

theorem gap_not_isTargetPart (hgap : Blank gap) (hne : gap ≠ []) (rest : List Char) :
    ∀ c ∈ (gap ++ rest).head?, isTargetPart (ignoreCase isWord) c = false := by
  intro c hc
  cases gap with
  | nil => exact absurd rfl hne
  | cons d gap =>
    obtain rfl : d = c := by simpa using hc
    exact isTargetPart_of_isSpace (hgap d List.mem_cons_self)

theorem word_head {p : Char → Bool} (hword : ∀ c ∈ word, p c = true) (hne : word ≠ [])
    (rest : List Char) : ∀ c ∈ (word ++ rest).head?, p c = true := by
  intro c hc
  cases word with
  | nil => exact absurd rfl hne
  | cons d word =>
    obtain rfl : d = c := by simpa using hc
    exact hword d List.mem_cons_self

theorem head_not_space {head : List Char} {dialect : DialectId}
    (hform : form ∈ assignmentForms dialect) (hhead : form.IsHead (ignoreCase isWord) head)
    (hsigil : form.AllowsSigil sigil) (hname : IsTargetName (ignoreCase isWord) name) :
    ∀ c ∈ (head ++ (sigil ++ (name ++ rest))).head?, Text.isSpace c = false := by
  rcases (assignmentForms_cases hform).1 with ⟨hnone, -⟩ | ⟨keyword, hkeyword, hcases⟩
  · rw [AssignmentForm.IsHead, hnone] at hhead
    rw [show head = [] from hhead, List.nil_append]
    exact target_not_space hsigil hname
  · rw [AssignmentForm.IsHead, hkeyword] at hhead
    obtain ⟨word, gap, rfl, hword, -, -⟩ := hhead
    obtain ⟨hall, hne⟩ := keyword_isTargetPart hcases hword
    rw [List.append_assoc]
    exact fun c hc => (isTargetPart_ne (word_head hall hne _ c hc)).1

theorem keyword_ne_target {form form' : AssignmentForm} (hkeyword : form.HasKeyword keyword)
    (hoperators : operator' = [':', '=']) {head : List Char}
    (hhead : form.IsHead (ignoreCase isWord) head) (hsigil : form.AllowsSigil sigil)
    (hsigil' : form'.AllowsSigil sigil') (hname : IsTargetName (ignoreCase isWord) name)
    (hname' : IsTargetName (ignoreCase isWord) name') (hgap' : Blank gap') :
    head ++ (sigil ++ (name ++ rest)) ≠ sigil' ++ (name' ++ (gap' ++ (operator' ++ rest'))) := by
  intro h
  subst hoperators
  rw [AssignmentForm.IsHead, hkeyword.1] at hhead
  obtain ⟨word, gap, rfl, hword, hgap, hne⟩ := hhead
  obtain ⟨hall, hwordne⟩ := keyword_isTargetPart hkeyword.2 hword
  rw [List.append_assoc, ← List.nil_append (word ++ _)] at h
  obtain ⟨-, hword⟩ := divided_eq (fun c hc => absurd hc List.not_mem_nil) hsigil'.isSigil
    (fun c hc => isSigil_of_isTargetPart (word_head hall hwordne _ c hc))
    (fun c hc => isSigil_of_isTargetPart (hname'.head_isTargetPart _ c hc)) h
  obtain ⟨-, hgaps⟩ := divided_eq hall hname'.2 (gap_not_isTargetPart hgap hne _)
    (after_name hgap' List.mem_cons_self) hword
  obtain ⟨-, hbegin⟩ := divided_eq hgap hgap' (target_not_space hsigil hname)
    (operator_not_space List.mem_cons_self) hgaps
  -- a target does not begin with `:=`
  have hhead (d : Char) (tail : List Char) (h : name ++ rest = d :: tail)
      (hd : d ∈ ['@', ':', '=', '+', '-', '*', '/']) : False := by
    have hpart := hname.head_isTargetPart rest d (by rw [h]; rfl)
    rw [isTargetPart_of_mem hd] at hpart
    exact Bool.false_ne_true hpart
  rcases hsigil with rfl | ⟨-, rfl | rfl⟩
  · exact absurd (List.cons.inj hbegin).1 (by decide)
  · exact hhead _ _ hbegin (by decide)
  · exact hhead _ _ (List.cons.inj hbegin).2 (by decide)

end Keywords

end Unique

variable {isWord : Char → Bool}

/-- **One reading.** A text has one target and one right side. -/
theorem Assigns.unique {dialect : DialectId} {text name rest name' rest' : List Char}
    (h : Assigns (ignoreCase isWord) dialect text name rest)
    (h' : Assigns (ignoreCase isWord) dialect text name' rest') : name = name' ∧ rest = rest' := by
  obtain ⟨form, hform, hname, lead, head, sigil, gap, operator, hlead, hhead, hsigil, hgap, hop,
    -, rfl⟩ := h
  obtain ⟨form', hform', hname', lead', head', sigil', gap', operator', hlead', hhead',
    hsigil', hgap',
    hop', -, htext⟩ := h'
  obtain ⟨hcases, hops⟩ := assignmentForms_cases hform
  obtain ⟨hcases', hops'⟩ := assignmentForms_cases hform'
  obtain ⟨-, htext⟩ := divided_eq hlead hlead' (head_not_space hform hhead hsigil hname)
    (head_not_space hform' hhead' hsigil' hname') htext
  rcases hcases with ⟨hnone, honly⟩ | ⟨keyword, hkeyword⟩
  · rcases hcases' with ⟨hnone', -⟩ | ⟨keyword', hkeyword'⟩
    · rw [AssignmentForm.IsHead, hnone] at hhead
      rw [AssignmentForm.IsHead, hnone'] at hhead'
      rw [show head = [] from hhead, show head' = [] from hhead', List.nil_append,
        List.nil_append] at htext
      exact target_unique hsigil hsigil' hname hname' hgap hgap' (hops _ hop) (hops' _ hop') htext
    · rw [AssignmentForm.IsHead, hnone] at hhead
      rw [show head = [] from hhead, List.nil_append] at htext
      rw [honly] at hop
      exact absurd htext.symm
        (keyword_ne_target hkeyword' (List.mem_singleton.mp hop) hhead' hsigil'
        hsigil hname' hname hgap)
  · rcases hcases' with ⟨hnone', honly'⟩ | ⟨keyword', hkeyword'⟩
    · rw [AssignmentForm.IsHead, hnone'] at hhead'
      rw [show head' = [] from hhead', List.nil_append] at htext
      rw [honly'] at hop'
      exact absurd htext (keyword_ne_target hkeyword (List.mem_singleton.mp hop') hhead hsigil
        hsigil' hname hname' hgap')
    · rw [AssignmentForm.IsHead, hkeyword.1] at hhead
      rw [AssignmentForm.IsHead, hkeyword'.1] at hhead'
      obtain ⟨word, blank, rfl, hword, hblank, hne⟩ := hhead
      obtain ⟨word', blank', rfl, hword', hblank', hne'⟩ := hhead'
      rw [List.append_assoc, List.append_assoc] at htext
      obtain ⟨-, htext⟩ := divided_eq (keyword_isTargetPart hkeyword.2 hword).1
        (keyword_isTargetPart hkeyword'.2 hword').1 (gap_not_isTargetPart hblank hne _)
        (gap_not_isTargetPart hblank' hne' _) htext
      obtain ⟨-, htext⟩ := divided_eq hblank hblank' (target_not_space hsigil hname)
        (target_not_space hsigil' hname') htext
      exact target_unique hsigil hsigil' hname hname' hgap hgap' (hops _ hop) (hops' _ hop') htext

/-! ## What the patterns match -/

variable {prev : Option Char} {read rest : List Char} {groups : Pattern.Groups Char}

theorem matches_oneOf_iff {patterns : List (Pattern Char)}
    : (oneOf patterns).Matches prev read rest groups ↔
      ∃ p ∈ patterns, p.Matches prev read rest groups := by
  induction patterns with
  | nil =>
    constructor
    · rintro ⟨⟨c, hc, -⟩, -⟩
      exact absurd hc Bool.false_ne_true
    · rintro ⟨p, hp, -⟩
      exact absurd hp List.not_mem_nil
  | cons p ps ih =>
    show p.Matches prev read rest groups ∨ (oneOf ps).Matches prev read rest groups ↔ _
    rw [ih, List.exists_mem_cons_iff]

theorem matches_dollar_end (prev : Option Char) : dollar.Matches prev [] [] [] := by
  refine ⟨fun read' rest' groups' happ hinner => ?_, rfl, rfl⟩
  obtain ⟨rfl, rfl⟩ := List.append_eq_nil_iff.mp happ
  exact hinner.1 [] [] [] rfl ⟨[], [], [], [], rfl, rfl, .inr ⟨rfl, rfl⟩, rfl, rfl, rfl⟩

theorem matches_anything_iff {greedy : Bool} :
    (anything greedy).Matches prev read rest groups ↔ read ≠ [] ∧ groups = [] := by
  constructor
  · rintro ⟨_, second, _, _, rfl, rfl, ⟨⟨c, -, rfl⟩, rfl⟩, hstar⟩
    obtain ⟨-, rfl⟩ := Pattern.matches_star_one_iff.mp hstar
    exact ⟨List.cons_ne_nil _ _, rfl⟩
  · rintro ⟨hne, rfl⟩
    cases read with
    | nil => exact absurd rfl hne
    | cons c read =>
      exact ⟨[c], read, [], [], rfl, rfl, ⟨⟨c, rfl, rfl⟩, rfl⟩,
        Pattern.matches_star_one_iff.mpr ⟨fun _ _ => rfl, rfl⟩⟩

theorem matches_spaces_iff :
    spaces.Matches prev read rest groups ↔ Blank read ∧ read ≠ [] ∧ groups = [] := by
  constructor
  · intro h
    refine ⟨blank_of_spaces h, ?_, h.groups_eq_nil groupFree_spaces⟩
    obtain ⟨_, _, _, _, rfl, -, ⟨⟨c, -, rfl⟩, -⟩, -⟩ := h
    exact List.cons_ne_nil _ _
  · rintro ⟨hblank, hne, rfl⟩
    cases read with
    | nil => exact absurd rfl hne
    | cons c read =>
      exact ⟨[c], read, [], [], rfl, rfl, ⟨⟨c, hblank c List.mem_cons_self, rfl⟩, rfl⟩,
        Pattern.matches_star_one_iff.mpr ⟨fun d hd => hblank d (List.mem_cons_of_mem c hd), rfl⟩⟩

theorem matches_optional_one {accepts : Char → Bool}
    (h : (optional (.one accepts)).Matches prev read rest groups) :
    (∀ c ∈ read, accepts c = true) ∧ groups = [] := by
  rcases h with ⟨⟨c, hc, rfl⟩, rfl⟩ | ⟨rfl, rfl⟩
  · exact ⟨fun d hd => List.mem_singleton.mp hd ▸ hc, rfl⟩
  · exact ⟨fun _ hd => absurd hd List.not_mem_nil, rfl⟩

theorem exists_matches_seq {a b : Pattern Char}
    (first second : List Char) (hread : read = first ++ second)
    (ha : ∃ groups, a.Matches prev first (second ++ rest) groups)
    (hb : ∃ groups, b.Matches (Pattern.before prev first) second rest groups) :
    ∃ groups, (Pattern.seq a b).Matches prev read rest groups := by
  obtain ⟨groups₁, ha⟩ := ha
  obtain ⟨groups₂, hb⟩ := hb
  exact ⟨groups₂ ++ groups₁, first, second, groups₁, groups₂, hread, rfl, ha, hb⟩

section Matches

variable {letters : Letters} {form : AssignmentForm} {prev : Option Char} {read rest : List Char}
  {groups : Pattern.Groups Char}

theorem matches_headPattern_iff : (form.headPattern letters).Matches prev read rest groups ↔
    form.IsHead letters read ∧ groups = [] := by
  unfold AssignmentForm.headPattern AssignmentForm.IsHead
  cases form.keyword with
  | none => exact Iff.rfl
  | some keyword =>
    constructor
    · rintro ⟨word, gap, _, _, rfl, rfl, hword, hgap⟩
      obtain ⟨hspells, rfl⟩ := matches_word_iff.mp hword
      obtain ⟨hblank, hne, rfl⟩ := matches_spaces_iff.mp hgap
      exact ⟨⟨word, gap, rfl, hspells, hblank, hne⟩, rfl⟩
    · rintro ⟨⟨word, gap, rfl, hword, hblank, hne⟩, rfl⟩
      exact ⟨word, gap, [], [], rfl, rfl, matches_word_iff.mpr ⟨hword, rfl⟩,
        matches_spaces_iff.mpr ⟨hblank, hne, rfl⟩⟩

theorem matches_sigilPattern_iff : form.sigilPattern.Matches prev read rest groups ↔
    form.AllowsSigil read ∧ groups = [] := by
  unfold AssignmentForm.sigilPattern AssignmentForm.AllowsSigil
  cases form.optionalSigil with
  | false =>
    constructor
    · rintro ⟨⟨c, hc, rfl⟩, rfl⟩
      exact ⟨.inl (by rw [of_decide_eq_true hc]), rfl⟩
    · rintro ⟨rfl | ⟨hfalse, -⟩, rfl⟩
      · exact ⟨⟨'@', rfl, rfl⟩, rfl⟩
      · exact absurd hfalse Bool.false_ne_true
  | true =>
    constructor
    · rintro (⟨⟨c, hc, rfl⟩, rfl⟩ | ⟨rfl, rfl⟩)
      · rcases isSigil_iff.mp hc with rfl | rfl
        · exact ⟨.inl rfl, rfl⟩
        · exact ⟨.inr ⟨rfl, .inr rfl⟩, rfl⟩
      · exact ⟨.inr ⟨rfl, .inl rfl⟩, rfl⟩
    · rintro ⟨rfl | ⟨-, rfl | rfl⟩, rfl⟩
      · exact .inl ⟨⟨'@', rfl, rfl⟩, rfl⟩
      · exact .inr ⟨rfl, rfl⟩
      · exact .inl ⟨⟨':', rfl, rfl⟩, rfl⟩

theorem matches_targetName_iff : (targetName letters).Matches prev read rest groups ↔
    IsTargetName letters read ∧ groups = [] := by
  constructor
  · rintro ⟨_, second, _, _, rfl, rfl, ⟨⟨c, hc, rfl⟩, rfl⟩, hstar⟩
    obtain ⟨hall, rfl⟩ := Pattern.matches_star_one_iff.mp hstar
    refine ⟨⟨⟨c, rfl, hc⟩, fun d hd => ?_⟩, rfl⟩
    rcases List.mem_cons.mp hd with rfl | hd
    · exact isTargetPart_of_isLabelStart hc
    · exact hall d hd
  · rintro ⟨⟨⟨c, hc, hstart⟩, hall⟩, rfl⟩
    cases read with
    | nil => exact absurd hc (by simp)
    | cons d read =>
      obtain rfl : d = c := by simpa using hc
      exact ⟨[d], read, [], [], rfl, rfl, ⟨⟨d, hstart, rfl⟩, rfl⟩,
        Pattern.matches_star_one_iff.mpr ⟨fun e he => hall e (List.mem_cons_of_mem d he), rfl⟩⟩

end Matches

theorem same_operator {c d : Char} (hc : c ∈ [':', '=', '+', '-', '*', '/']) :
    (ignoreCase isWord).same c d = true ↔ c = d := by
  have hupper : ∀ c ∈ [':', '=', '+', '-', '*', '/'], c.toUpper = c ∧ c.toNat < 65 ∧
      ignoredCase c = c := List.all_iff_forall_prop.mp (by decide +kernel)
  obtain ⟨hself, hcode, hfold⟩ := hupper c hc
  have hsame : (ignoreCase isWord).same c d = true ↔ c = ignoredCase d := by
    show decide (c.toUpper = ignoredCase d) = true ↔ _
    rw [decide_eq_true_iff, hself]
  rw [hsame]
  constructor
  · rintro rfl
    unfold ignoredCase at hcode ⊢
    split at hcode
    · exact absurd hcode (by decide)
    split at hcode
    · exact absurd hcode (by decide)
    split at hcode
    · exact absurd hcode (by decide)
    · next h₁ h₂ h₃ =>
        rw [if_neg h₁, if_neg h₂, if_neg h₃]
        rcases Text.toUpper_letter d with heq | ⟨-, hletter⟩
        · exact heq
        · omega
  · rintro rfl
    exact hfold.symm

theorem spells_operator_iff {operator : String} {read : List Char}
    (h : operator.toList ∈ assignmentOperators) :
    Spells (ignoreCase isWord) operator read ↔ read = operator.toList := by
  have hchars : ∀ operator ∈ assignmentOperators,
      operator.all (fun c => c ∈ [':', '=', '+', '-', '*', '/']) = true :=
    List.all_iff_forall_prop.mp (by decide)
  have hall := List.all_iff_forall_prop.mp (hchars _ h)
  unfold Spells
  generalize operator.toList = cs at hall
  clear h hchars
  induction cs generalizing read with
  | nil => rw [List.forall₂_nil_left_iff]
  | cons c cs ih =>
    constructor
    · intro hspells
      cases hspells with
      | cons hd hrest =>
        rw [(same_operator (hall c List.mem_cons_self)).mp hd,
          (ih fun d hd => hall d (List.mem_cons_of_mem c hd)).mp hrest]
    · rintro rfl
      exact .cons ((same_operator (hall c List.mem_cons_self)).mpr rfl)
        ((ih fun d hd => hall d (List.mem_cons_of_mem c hd)).mpr rfl)

theorem matches_operators_iff {operators : List String}
    (h : ∀ operator ∈ operators.map String.toList, operator ∈ assignmentOperators)
    {prev : Option Char} {read rest : List Char} {groups : Pattern.Groups Char} :
    (oneOf (operators.map (ignoreCase isWord).word)).Matches prev read rest groups ↔
      read ∈ operators.map String.toList ∧ groups = [] := by
  rw [matches_oneOf_iff]
  constructor
  · rintro ⟨p, hp, hmatch⟩
    obtain ⟨operator, hop, rfl⟩ := List.mem_map.mp hp
    obtain ⟨hspells, rfl⟩ := matches_word_iff.mp hmatch
    have hmem := List.mem_map_of_mem (f := String.toList) hop
    exact ⟨(spells_operator_iff (h _ hmem)).mp hspells ▸ hmem, rfl⟩
  · rintro ⟨hread, rfl⟩
    obtain ⟨operator, hop, rfl⟩ := List.mem_map.mp hread
    exact ⟨_, List.mem_map_of_mem hop,
      matches_word_iff.mpr ⟨(spells_operator_iff (h _ hread)).mpr rfl, rfl⟩⟩

/-! ## What the patterns find -/

section Found

variable {isWord : Char → Bool} {dialect : DialectId}

theorem words_rightSide {gap read blank semicolon rest : List Char} (hgap : Blank gap)
    (hblank : Blank blank) (hsemicolon : ∀ c ∈ semicolon, c = ';') (hrest : Blank rest) :
    words (gap ++ (read ++ (blank ++ (semicolon ++ rest)))) =
      words (Inline.rstripSemicolons (Text.strip read)) := by
  have hinert (text : List Char) (h : Blank text) : ∀ c ∈ text, isInert (id c) = true :=
    fun c hc => isInert_of_isSpace (h c hc)
  have hsemi (text : List Char) (h : ∀ c ∈ text, c = ';') : ∀ c ∈ text, isInert (id c) = true :=
    fun c hc => by rw [h c hc]; rfl
  have hafter : ∀ c ∈ blank ++ (semicolon ++ rest), isInert (id c) = true := by
    intro c hc
    rcases List.mem_append.mp hc with hc | hc
    · exact hinert _ hblank c hc
    · rcases List.mem_append.mp hc with hc | hc
      · exact hsemi _ hsemicolon c hc
      · exact hinert _ hrest c hc
  rw [words, wordsOf_inert_around (hinert _ hgap) hafter]
  obtain ⟨lead, trail, hread, hlead, htrail⟩ := Inline.strip_split read
  have hleadBlank : Blank lead := fun c hc => List.mem_takeWhile_imp (hlead ▸ hc)
  obtain ⟨semicolons, hstrip, hsemicolons⟩ := Inline.rstripSemicolons_split (Text.strip read)
  conv_lhs => rw [hread, List.append_assoc]
  rw [wordsOf_inert_around (hinert _ hleadBlank) (hinert _ htrail)]
  conv_lhs => rw [hstrip, ← List.nil_append (Inline.rstripSemicolons _ ++ _)]
  exact wordsOf_inert_around (fun c hc => absurd hc List.not_mem_nil) (hsemi _ hsemicolons) _

theorem lstripSigils_target {sigil name : List Char}
    (hsigil : form.AllowsSigil sigil) (hname : IsTargetName (ignoreCase isWord) name) :
    lstripSigils (sigil ++ name) = name := by
  unfold lstripSigils
  rw [List.dropWhile_append_of_pos hsigil.isSigil]
  obtain ⟨⟨c, hc, -⟩, hall⟩ := hname
  cases name with
  | nil => rfl
  | cons d name =>
    rw [List.dropWhile_cons_of_neg]
    rw [isSigil_of_isTargetPart (hall d List.mem_cons_self)]
    exact Bool.false_ne_true

/-- What the pattern finds is an assignment of the form. -/
theorem AssignmentForm.firstMatch_fits (hform : form ∈ assignmentForms dialect)
    {text : List Char} {m : Pattern.Found Char}
    (h : (form.pattern (ignoreCase isWord)).firstMatch text = some m) :
    ∃ name rest, form.Fits (ignoreCase isWord) text name rest ∧
      lstripSigils (Inline.groupOf m 1) = name ∧
      words (Inline.rstripSemicolons (Text.strip (Inline.groupOf m 2))) = words rest := by
  obtain ⟨happ, hmatch⟩ := Pattern.firstMatch_sound h
  obtain ⟨_, _, _, _, hread, hgroups, ⟨-, rfl, rfl⟩, hmatch⟩ := hmatch
  obtain ⟨lead, _, _, _, rfl, rfl, mlead, hmatch⟩ := hmatch
  obtain ⟨head, _, _, _, rfl, rfl, mhead, hmatch⟩ := hmatch
  obtain ⟨_, _, _, _, rfl, rfl, ⟨_, rfl, sigil, name, _, _, rfl, rfl, msigil, mname⟩, hmatch⟩ :=
    hmatch
  obtain ⟨gap, _, _, _, rfl, rfl, mgap, hmatch⟩ := hmatch
  obtain ⟨operator, _, _, _, rfl, rfl, mop, hmatch⟩ := hmatch
  obtain ⟨gap', _, _, _, rfl, rfl, mgap', hmatch⟩ := hmatch
  obtain ⟨right, _, _, _, rfl, rfl, ⟨_, rfl, mright⟩, hmatch⟩ := hmatch
  obtain ⟨blank, _, _, _, rfl, rfl, mblank, hmatch⟩ := hmatch
  obtain ⟨semicolon, _, _, _, rfl, rfl, msemicolon, hmatch⟩ := hmatch
  obtain ⟨_, _, _, _, rfl, rfl, mdollar, ⟨rfl, rfl⟩⟩ := hmatch
  obtain ⟨hrest, rfl, rfl⟩ := blank_of_dollar mdollar
  obtain ⟨hlead, rfl⟩ := Pattern.matches_star_one_iff.mp mlead
  obtain ⟨hhead, rfl⟩ := matches_headPattern_iff.mp mhead
  obtain ⟨hsigil, rfl⟩ := matches_sigilPattern_iff.mp msigil
  obtain ⟨hname, rfl⟩ := matches_targetName_iff.mp mname
  obtain ⟨hgap, rfl⟩ := Pattern.matches_star_one_iff.mp mgap
  obtain ⟨hop, rfl⟩ := (matches_operators_iff (assignmentForms_cases hform).2).mp mop
  obtain ⟨hgap', rfl⟩ := Pattern.matches_star_one_iff.mp mgap'
  obtain ⟨hright, rfl⟩ := matches_anything_iff.mp mright
  obtain ⟨hblank, rfl⟩ := Pattern.matches_star_one_iff.mp mblank
  obtain ⟨hsemicolon, rfl⟩ := matches_optional_one msemicolon
  have hfirst : Inline.groupOf m 1 = sigil ++ name := by rw [Inline.groupOf, hgroups]; rfl
  have hsecond : Inline.groupOf m 2 = right := by rw [Inline.groupOf, hgroups]; rfl
  rw [hfirst, hsecond, lstripSigils_target hsigil hname]
  refine ⟨name, gap' ++ (right ++ (blank ++ (semicolon ++ m.rest))), ⟨hname, ?_⟩, rfl, ?_⟩
  · refine ⟨lead, head, sigil, gap, operator, hlead, hhead, hsigil, hgap, hop, ?_, ?_⟩
    · intro hnil
      exact hright (List.append_eq_nil_iff.mp (List.append_eq_nil_iff.mp hnil).2).1
    · rw [← happ, hread]
      simp only [List.append_assoc, List.nil_append]
  · exact
      (words_rightSide hgap' hblank (fun c hc => of_decide_eq_true (hsemicolon c hc)) hrest).symm

/-- An assignment of the form is found. -/
theorem AssignmentForm.Fits.found (hform : form ∈ assignmentForms dialect)
    {text name rest : List Char} (h : form.Fits (ignoreCase isWord) text name rest) :
    ((form.pattern (ignoreCase isWord)).firstMatch text).isSome = true := by
  obtain ⟨hname, lead, head, sigil, gap, operator, hlead, hhead, hsigil, hgap, hop, hrest, rfl⟩ := h
  have hblank : ∀ c ∈ ([] : List Char), Text.isSpace c = true :=
    fun _ hc => absurd hc List.not_mem_nil
  have hmatch : ∃ groups, (form.pattern (ignoreCase isWord)).Matches none
      (lead ++ (head ++ (sigil ++ (name ++ (gap ++ (operator ++ rest)))))) [] groups := by
    refine exists_matches_seq [] _ rfl ⟨[], rfl, rfl, rfl⟩ ?_
    refine exists_matches_seq lead _ rfl ⟨[], Pattern.matches_star_one_iff.mpr ⟨hlead, rfl⟩⟩ ?_
    refine exists_matches_seq head _ rfl ⟨[], matches_headPattern_iff.mpr ⟨hhead, rfl⟩⟩ ?_
    refine exists_matches_seq (sigil ++ name) _ (List.append_assoc ..).symm
      ⟨_, _, rfl, sigil, name, [], [], rfl, rfl, matches_sigilPattern_iff.mpr ⟨hsigil, rfl⟩,
        matches_targetName_iff.mpr ⟨hname, rfl⟩⟩ ?_
    refine exists_matches_seq gap _ rfl ⟨[], Pattern.matches_star_one_iff.mpr ⟨hgap, rfl⟩⟩ ?_
    refine exists_matches_seq operator _ rfl
      ⟨[], (matches_operators_iff (assignmentForms_cases hform).2).mpr ⟨hop, rfl⟩⟩ ?_
    refine exists_matches_seq [] _ rfl ⟨[], Pattern.matches_star_one_iff.mpr ⟨hblank, rfl⟩⟩ ?_
    -- the right side takes all that is left
    refine exists_matches_seq rest [] (List.append_nil rest).symm
      ⟨_, _, rfl, matches_anything_iff.mpr ⟨hrest, rfl⟩⟩ ?_
    refine exists_matches_seq [] [] rfl ⟨[], Pattern.matches_star_one_iff.mpr ⟨hblank, rfl⟩⟩ ?_
    refine exists_matches_seq [] [] rfl ⟨[], .inr ⟨rfl, rfl⟩⟩ ?_
    exact exists_matches_seq [] [] rfl ⟨[], matches_dollar_end _⟩ ⟨[], rfl, rfl⟩
  obtain ⟨groups, hmatch⟩ := hmatch
  have hrun := (Pattern.mem_run_iff _ none _ ⟨_, [], groups⟩).mpr ⟨List.append_nil _, hmatch⟩
  exact List.isSome_head?.mpr (List.ne_nil_of_mem hrun)

/-- **What is read as an assignment** is one, with the words of its right side. -/
theorem assignment_eq_some {text target expression : List Char}
    (h : assignment (ignoreCase isWord) dialect text = some (target, expression)) :
    ∃ rest, Assigns (ignoreCase isWord) dialect text target rest ∧
    words expression = words rest := by
  obtain ⟨form, hform, hmap⟩ := List.exists_of_findSome?_eq_some h
  obtain ⟨m, hm, hparts⟩ := Option.map_eq_some_iff.mp hmap
  obtain ⟨name, rest, hfits, hname, hwords⟩ := form.firstMatch_fits hform hm
  cases hparts
  rw [hname]
  exact ⟨rest, ⟨form, hform, hfits⟩, hwords⟩

theorem assignment_eq_none {text : List Char}
    (h : assignment (ignoreCase isWord) dialect text = none) :
    ¬ ∃ name rest, Assigns (ignoreCase isWord) dialect text name rest := by
  rintro ⟨name, rest, form, hform, hfits⟩
  have hnone := List.findSome?_eq_none_iff.mp h form hform
  have hsome := hfits.found hform
  rw [Option.map_eq_none_iff.mp hnone] at hsome
  exact absurd hsome Bool.false_ne_true

end Found

end AtlasDb.Dialects
