import AtlasDb.Runtime.NumericLiterals

/-!
# Expected literal values

`runtime/plan.py: _literal_value` guesses the value of an expression from its text. A text that
begins and ends with a quote need not be one string literal, and `Decimal` reads more than numeric
literals. Settled here: what the guess is worth, and when two spellings of one number are the same
expected value.
-/

namespace AtlasDb.Runtime

open Core Core.Json

/-! ## Literals and the values read from them -/

/-- The body of a string literal: quotes are written twice. -/
def doubled : List Char → List Char
  | [] => []
  | c :: cs => if c = '\'' then '\'' :: '\'' :: doubled cs else c :: doubled cs

/-- The string literal of a text. -/
def quoted (text : List Char) : List Char := '\'' :: (doubled text ++ ['\''])

/-- `text` is NULL or one literal, and `value` is what it denotes. -/
inductive Denotes : List Char → RuntimeValue → Prop
  | null {text : List Char} (isNull : Text.upper text = "NULL".toList) : Denotes text .null
  | string (text : List Char) : Denotes (quoted text) (.of .string (String.ofList text))
  | number (n : NumericLiteral) {kind : RuntimeValueKind} {canonical : String}
      (hkind : kind = if n.Integer then .integer else .decimal)
      (hvalue : numericValue canonical = some n.value) : Denotes n.text (.of kind canonical)

/-- The source's test for a string literal. -/
def Quoted (text : List Char) : Prop :=
  2 ≤ text.length ∧ text.head? = some '\'' ∧ text.getLast? = some '\''

/-- Between quotes stands one string literal, and `Decimal` reads no infinity, no NaN and no
underscore. -/
def ReadAsWritten (text : List Char) : Prop :=
  (Quoted text → ∃ body, text = quoted body) ∧
    (Text.upper text ≠ "NULL".toList → ¬ Quoted text →
      ∀ d, parseDecimal (String.ofList text) = some d →
      (∃ number, d = .finite number) ∧ '_' ∉ text)

theorem undoubled_doubled (text : List Char) : undoubled (doubled text) = text := by
  induction text with
  | nil => rfl
  | cons c cs ih =>
    rw [doubled]
    split
    · next hc =>
        rw [undoubled, ih, hc]
    · next hc =>
        rw [undoubled, ih]
        rintro rest rfl
        exact absurd rfl hc

theorem quoted_body (text : List Char) : (quoted text).tail.dropLast = doubled text := by
  rw [quoted, List.tail_cons, List.dropLast_concat]

theorem upper_null_ne_quote {text : List Char} (hquoted : Quoted text) :
    Text.upper text ≠ "NULL".toList := by
  intro hnull
  cases text with
  | nil => exact absurd hquoted.1 (by decide)
  | cons c cs =>
    obtain rfl : c = '\'' := Option.some.inj hquoted.2.1
    exact absurd (List.cons.inj hnull).1 (by decide)

theorem literalValue_quoted {e : String} (h : Quoted (Text.strip e.toList)) :
    literalValue (some e) =
      some (.of .string (String.ofList (undoubled (Text.strip e.toList).tail.dropLast))) := by
  simp only [literalValue]
  rw [if_neg (upper_null_ne_quote h)]
  exact if_pos h

theorem literalValue_integer {e : String} (hnull : Text.upper (Text.strip e.toList) ≠ "NULL".toList)
    (hquoted : ¬ Quoted (Text.strip e.toList)) (h : isInteger (Text.strip e.toList) = true) :
    literalValue (some e) = some (.of .integer (integerText (Text.strip e.toList))) := by
  simp only [literalValue]
  rw [if_neg hnull]
  exact (if_neg hquoted).trans (if_pos h)

theorem literalValue_decimal {e : String} (hnull : Text.upper (Text.strip e.toList) ≠ "NULL".toList)
    (hquoted : ¬ Quoted (Text.strip e.toList)) (h : isInteger (Text.strip e.toList) ≠ true) :
    literalValue (some e) =
      (parseDecimal (String.ofList (Text.strip e.toList))).map fun d => .of .decimal d.text := by
  simp only [literalValue]
  rw [if_neg hnull]
  exact (if_neg hquoted).trans (if_neg h)

/-! ## Integers -/

theorem isInteger_source {text : List Char} (h : isInteger text = true) :
    ∃ n : NumericLiteral, n.text = text ∧ n.Integer ∧
      integerText text = toString (signedValue n.sign n.int) := by
  obtain ⟨s, htext, hneg⟩ := takeSign_source text
  simp only [isInteger, Bool.and_eq_true, decide_eq_true_iff] at h
  refine ⟨⟨s, (takeSign text).2, none, none, List.all_eq_true.mp h.2, nofun, .inl h.1⟩, ?_,
    ⟨rfl, rfl⟩, ?_⟩
  · conv_rhs => rw [htext]
    show s.text ++ (_ ++ []) = _
    rw [List.append_nil]
  · show _ = toString (signedValue s (takeSign text).2)
    rw [signedValue, hneg]
    rfl

theorem NumericLiteral.isInteger_text {n : NumericLiteral} : isInteger n.text = true ↔
    n.Integer := by
  simp only [isInteger, n.takeSign_literal, Bool.and_eq_true, decide_eq_true_iff]
  rw [← n.tailText_eq_nil]
  constructor
  · rintro ⟨-, hall⟩
    cases htail : n.tailText with
    | nil => rfl
    | cons c cs =>
      have hdigit := List.all_eq_true.mp hall c (by rw [htail]; simp)
      rw [n.tailText_head c (by rw [htail]; rfl)] at hdigit
      cases hdigit
  · intro htail
    obtain ⟨c, cs, heq, -⟩ := n.unsigned_head
    refine ⟨heq ▸ List.cons_ne_nil c cs, ?_⟩
    rw [htail, List.append_nil]
    exact List.all_eq_true.mpr n.int_digits

theorem NumericLiteral.integerText_text {n : NumericLiteral} (h : n.Integer) :
    integerText n.text = toString (signedValue n.sign n.int) := by
  simp only [integerText, n.takeSign_literal]
  rw [n.tailText_eq_nil.mpr h, List.append_nil]
  rfl

/-! ## What a value is worth -/

theorem Denotes.string_source {text : List Char} {canonical : String}
    (h : Denotes text (.of .string canonical)) : ∃ body, text = quoted body := by
  cases h with
  | string body => exact ⟨body, rfl⟩
  | number n hkind =>
    split at hkind
    · cases hkind
    · cases hkind

theorem Denotes.decimal_source {text : List Char} {canonical : String}
    (h : Denotes text (.of .decimal canonical)) : ∃ n : NumericLiteral, n.text = text := by
  cases h with
  | number n => exact ⟨n, rfl⟩

theorem decimal_readAsWritten {n : NumericLiteral} {d : Decimal}
    (h : parseDecimal (String.ofList n.text) = some d) :
    (∃ number, d = .finite number) ∧ '_' ∉ n.text := by
  rw [parseDecimal_text] at h
  exact ⟨⟨n.number, (Option.some.inj h).symm⟩, fun hmem => (n.clean _ hmem).2 rfl⟩

/-- Whatever is read from an expression is what the expression denotes exactly when the expression
reads as it is written. -/
theorem denotes_iff (e : String) :
    (∀ v, literalValue (some e) = some v → Denotes (Text.strip e.toList) v) ↔
      ReadAsWritten (Text.strip e.toList) := by
  constructor
  · intro h
    refine ⟨fun hquoted => (h _ (literalValue_quoted hquoted)).string_source, ?_⟩
    intro hnull hquoted d hd
    obtain ⟨n, hn⟩ : ∃ n : NumericLiteral, n.text = Text.strip e.toList := by
      by_cases hint : isInteger (Text.strip e.toList) = true
      · obtain ⟨n, hn, -⟩ := isInteger_source hint
        exact ⟨n, hn⟩
      · refine (h (.of .decimal d.text) ?_).decimal_source
        rw [literalValue_decimal hnull hquoted hint, hd]
        rfl
    rw [← hn] at hd ⊢
    exact decimal_readAsWritten hd
  · rintro ⟨hstring, hnumber⟩ v hv
    by_cases hnull : Text.upper (Text.strip e.toList) = "NULL".toList
    · simp only [literalValue] at hv
      rw [if_pos hnull] at hv
      obtain rfl := Option.some.inj hv
      exact .null hnull
    by_cases hquoted : Quoted (Text.strip e.toList)
    · rw [literalValue_quoted hquoted] at hv
      obtain rfl := Option.some.inj hv
      obtain ⟨body, hbody⟩ := hstring hquoted
      rw [hbody, quoted_body, undoubled_doubled]
      exact .string body
    by_cases hint : isInteger (Text.strip e.toList) = true
    · rw [literalValue_integer hnull hquoted hint] at hv
      obtain rfl := Option.some.inj hv
      obtain ⟨n, hn, hinteger, htext⟩ := isInteger_source hint
      rw [htext, ← hn]
      refine .number n (if_pos hinteger).symm ?_
      rw [numericValue_toString, n.value_integer hinteger]
    · rw [literalValue_decimal hnull hquoted hint] at hv
      obtain ⟨d, hd, rfl⟩ := Option.map_eq_some_iff.mp hv
      obtain ⟨⟨number, rfl⟩, hscore⟩ := hnumber hnull hquoted d hd
      -- the stripped text is stripped again by `Decimal`
      have hstrip : Text.strip (String.ofList (Text.strip e.toList)).toList =
        Text.strip e.toList := by
        rw [String.toList_ofList, Text.strip_strip]
      have hclean : '_' ∉ Text.strip (String.ofList (Text.strip e.toList)).toList := by
        rw [hstrip]
        exact hscore
      obtain ⟨n, hn, hnum⟩ := parseDecimal_source hd hclean
      rw [hstrip] at hn
      rw [← hn] at hint ⊢
      refine .number n (if_neg fun h => hint (n.isInteger_text.mpr h)).symm ?_
      rw [Decimal.text, numericValue_printed, ← hnum, n.number_value]

/-! ## Two spellings of a number -/

/-- The power of ten the last digit of a literal counts. -/
def NumericLiteral.scale (n : NumericLiteral) : Int :=
  n.exponentValue - (n.fraction.getD []).length

/-- Two integers, or two other literals that agree on sign and scale. -/
def SameForm (n n' : NumericLiteral) : Prop :=
  (n.Integer ∧ n'.Integer) ∨
    (¬ n.Integer ∧ ¬ n'.Integer ∧ n.sign.negative = n'.sign.negative ∧ n.scale = n'.scale)

theorem isDigit_toUpper {c : Char} (h : c.isDigit = true) : c.toUpper = c := by
  rw [Char.isDigit, Bool.and_eq_true, decide_eq_true_iff, decide_eq_true_iff] at h
  unfold Char.toUpper
  grind

theorem NumericLiteral.head_text (n : NumericLiteral) :
    ∃ c cs, n.text = c :: cs ∧ c.toUpper = c ∧ c ≠ '\'' ∧ c ≠ 'N' := by
  obtain ⟨c, cs, heq, hc⟩ := n.unsigned_head
  have htext : n.text = n.sign.text ++ c :: cs := by
    rw [← heq]
    rfl
  cases hs : n.sign with
  | absent =>
    refine ⟨c, cs, by rw [htext, hs]; rfl, ?_⟩
    rcases hc with rfl | hc
    · decide
    · refine ⟨isDigit_toUpper hc, ?_, ?_⟩
      · rintro rfl
        exact absurd hc (by decide)
      · rintro rfl
        exact absurd hc (by decide)
  | plus => exact ⟨'+', c :: cs, by rw [htext, hs]; rfl, by decide, by decide, by decide⟩
  | minus => exact ⟨'-', c :: cs, by rw [htext, hs]; rfl, by decide, by decide, by decide⟩

theorem literalValue_text (n : NumericLiteral) :
    literalValue (some (String.ofList n.text)) =
      some (if n.Integer then .of .integer (toString (signedValue n.sign n.int))
        else .of .decimal n.number.text) := by
  obtain ⟨c, cs, htext, hupper, hquote, hN⟩ := n.head_text
  have hstrip : Text.strip (String.ofList n.text).toList = n.text := by
    rw [String.toList_ofList, n.strip_text]
  have hnull : Text.upper (Text.strip (String.ofList n.text).toList) ≠ "NULL".toList := by
    rw [hstrip, htext]
    intro h
    exact hN (hupper.symm.trans (List.cons.inj h).1)
  have hquoted : ¬ Quoted (Text.strip (String.ofList n.text).toList) := by
    rw [hstrip, htext]
    rintro ⟨-, h, -⟩
    exact hquote (Option.some.inj h)
  by_cases hint : n.Integer
  · rw [literalValue_integer hnull hquoted (by rw [hstrip]; exact n.isInteger_text.mpr hint),
      hstrip, n.integerText_text hint, if_pos hint]
  · rw [literalValue_decimal hnull hquoted
      (by rw [hstrip]; exact fun h => hint (n.isInteger_text.mp h)), hstrip, parseDecimal_text,
      if_neg hint]
    rfl

theorem DecimalNumber.text_injective {d d' : DecimalNumber} (h : d.text = d'.text) : d = d' := by
  have hread := parseDecimal_printed d
  rw [h, parseDecimal_printed] at hread
  exact (Decimal.finite.inj (Option.some.inj hread)).symm

theorem DecimalNumber.eq_of_value {d d' : DecimalNumber} (hnegative : d.negative = d'.negative)
    (hexponent : d.exponent = d'.exponent) (hvalue : d.value = d'.value) : d = d' := by
  obtain ⟨negative, coefficient, exponent⟩ := d
  obtain ⟨negative', coefficient', exponent'⟩ := d'
  obtain rfl : negative = negative' := hnegative
  obtain rfl : exponent = exponent' := hexponent
  have hpower : (10 : ℚ) ^ exponent ≠ 0 := zpow_ne_zero _ (by norm_num)
  have hsign : (if negative then (-1 : ℚ) else 1) ≠ 0 := by
    cases negative with
    | true => norm_num
    | false => norm_num
  have hcoefficient := mul_left_cancel₀ hsign (mul_right_cancel₀ hpower hvalue)
  obtain rfl : coefficient = coefficient' := Nat.cast_injective hcoefficient
  rfl

/-- Equal numbers are equal literals iff they are written alike. -/
theorem literalValue_eq_iff {n n' : NumericLiteral} (hvalue : n.value = n'.value) :
    literalValue (some (String.ofList n.text)) = literalValue (some (String.ofList n'.text)) ↔
      SameForm n n' := by
  rw [literalValue_text, literalValue_text, Option.some_inj, SameForm]
  by_cases hint : n.Integer
  · by_cases hint' : n'.Integer
    · -- two integers are compared by value
      have hsigned : signedValue n.sign n.int = signedValue n'.sign n'.int := by
        rw [n.value_integer hint, n'.value_integer hint'] at hvalue
        exact Int.cast_injective hvalue
      rw [if_pos hint, if_pos hint', hsigned]
      exact iff_of_true rfl (.inl ⟨hint, hint'⟩)
    · rw [if_pos hint, if_neg hint']
      refine iff_of_false nofun ?_
      rintro (h | h)
      · exact hint' h.2
      · exact h.1 hint
  · by_cases hint' : n'.Integer
    · rw [if_neg hint, if_pos hint']
      refine iff_of_false nofun ?_
      rintro (h | h)
      · exact hint h.1
      · exact h.2.1 hint'
    · rw [if_neg hint, if_neg hint']
      constructor
      · intro h
        have hnumber := DecimalNumber.text_injective (RuntimeValue.of.inj h).2
        exact .inr ⟨hint, hint', congrArg DecimalNumber.negative hnumber,
          congrArg DecimalNumber.exponent hnumber⟩
      · rintro (h | ⟨-, -, hnegative, hscale⟩)
        · exact absurd h.1 hint
        · have hnumber : n.number = n'.number := by
            apply DecimalNumber.eq_of_value hnegative hscale
            rw [n.number_value, n'.number_value, hvalue]
          rw [hnumber]

/-- A value read from an expression is the value of the expression exactly when the expression reads
as it is written, and two literals of one number give equal values exactly when they have one
form. -/
theorem literal_values_iff (e : String) (n n' : NumericLiteral) :
    ((∀ v, literalValue (some e) = some v → Denotes (Text.strip e.toList) v) ↔
      ReadAsWritten (Text.strip e.toList)) ∧
    (n.value = n'.value →
      (literalValue (some (String.ofList n.text)) = literalValue (some (String.ofList n'.text)) ↔
        SameForm n n')) :=
  ⟨denotes_iff e, fun hvalue => literalValue_eq_iff hvalue⟩

/-- A concatenation that begins and ends with a quote. -/
def concatenation : String := "'a' || 'b'"

theorem concatenation_not_read : ¬ ReadAsWritten (Text.strip concatenation.toList) := by
  have hquoted : Quoted (Text.strip concatenation.toList) := by
    rw [Quoted]
    decide +kernel
  rintro ⟨hstring, -⟩
  obtain ⟨body, hbody⟩ := hstring hquoted
  -- a string literal is what its decoded body is written as
  have hwritten : quoted (undoubled (Text.strip concatenation.toList).tail.dropLast) =
      Text.strip concatenation.toList := by
    rw [hbody, quoted_body, undoubled_doubled]
  revert hwritten
  decide +kernel

/-- `1.0`, and the same with one more digit. -/
def oneTo (zeros : Nat) : NumericLiteral where
  sign := .absent
  int := ['1']
  fraction := some (List.replicate zeros '0')
  exponent := none
  int_digits := List.forall_mem_singleton.mpr rfl
  fraction_digits := isDigit_replicate
  nonempty := .inl nofun

theorem oneTo_value (zeros : Nat) : (oneTo zeros).value = 1 := by
  show (1 : ℚ) * (digitsValue ['1'] + digitsValue (List.replicate zeros '0') / 10 ^ _) * 10 ^
    (0 : Int) = 1
  rw [digitsValue_zeros, show digitsValue ['1'] = 1 by decide]
  norm_num

theorem oneTo_forms : ¬ SameForm (oneTo 1) (oneTo 2) := by
  rintro (h | h)
  · exact absurd h.1 (by decide)
  · exact absurd h.2.2.2 (by decide)

/-- `'a' || 'b'` is taken for a string literal, and `1.0` for another value than `1.00`. -/
theorem concatenation_misread :
    (∃ v, literalValue (some concatenation) = some v ∧
      ¬ Denotes (Text.strip concatenation.toList) v) ∧
    ∃ n n' : NumericLiteral, n.value = n'.value ∧
      literalValue (some (String.ofList n.text)) ≠ literalValue (some (String.ofList n'.text)) := by
  constructor
  · by_contra hnone
    rw [not_exists] at hnone
    refine concatenation_not_read ((denotes_iff concatenation).mp fun v hv => ?_)
    by_contra hdenotes
    exact hnone v ⟨hv, hdenotes⟩
  · have hvalue : (oneTo 1).value = (oneTo 2).value := by rw [oneTo_value, oneTo_value]
    exact ⟨oneTo 1, oneTo 2, hvalue, fun heq => oneTo_forms ((literalValue_eq_iff hvalue).mp heq)⟩

/-- `0.5` is read as it is written; the two spellings of one are different values. -/
theorem literal_values_iff_half :
    (∀ v, literalValue (some "0.5") = some v → Denotes (Text.strip "0.5".toList) v) ∧
      literalValue (some (String.ofList (oneTo 1).text)) ≠
        literalValue (some (String.ofList (oneTo 2).text)) := by
  constructor
  · refine (literal_values_iff "0.5" (oneTo 1) (oneTo 2)).1.mpr ⟨?_, ?_⟩
    · intro hquoted
      exact absurd hquoted.2.1 (by decide +kernel)
    · intro _ _ d hd
      have hread : parseDecimal (String.ofList (Text.strip "0.5".toList)) =
          some (.finite ⟨false, 5, -1⟩) := by decide +kernel
      rw [hread] at hd
      exact ⟨⟨_, (Option.some.inj hd).symm⟩, by decide +kernel⟩
  · intro heq
    have hvalue : (oneTo 1).value = (oneTo 2).value := by rw [oneTo_value, oneTo_value]
    exact oneTo_forms (((literal_values_iff "0.5" (oneTo 1) (oneTo 2)).2 hvalue).mp heq)

end AtlasDb.Runtime
