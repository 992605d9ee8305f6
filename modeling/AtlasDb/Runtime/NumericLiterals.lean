import AtlasDb.Core.JsonText
import AtlasDb.Runtime.Planner
import Mathlib.Tactic.FieldSimp
import Mathlib.Tactic.Ring

/-!
# Numeric literals

The numeric literals of SQL, and what `Decimal` makes of them: every literal is read with its own
digits, whatever is read as a finite number without underscores is a literal, and a printed number
is read back.
-/

namespace AtlasDb.Runtime

open Core Core.Json

/-! ## Numeric literals -/

inductive Sign
  | absent | plus | minus
deriving DecidableEq, Repr

def Sign.text : Sign → List Char
  | .absent => []
  | .plus => ['+']
  | .minus => ['-']

def Sign.negative : Sign → Bool
  | .minus => true
  | _ => false

/-- `E`, a sign and digits. -/
structure Exponent where
  marker : Char
  sign : Sign
  digits : List Char
  marks : marker = 'E' ∨ marker = 'e'
  isDigit : ∀ c ∈ digits, c.isDigit = true
  nonempty : digits ≠ []

def Exponent.text (e : Exponent) : List Char := e.marker :: (e.sign.text ++ e.digits)

def Exponent.value (e : Exponent) : Int :=
  if e.sign.negative then -(digitsValue e.digits : Int) else digitsValue e.digits

def fractionTextOf : Option (List Char) → List Char
  | some digits => '.' :: digits
  | none => []

def exponentTextOf : Option Exponent → List Char
  | some e => e.text
  | none => []

def exponentValueOf : Option Exponent → Int
  | some e => e.value
  | none => 0

/-- A signed numeric literal of SQL, by its parts. -/
structure NumericLiteral where
  sign : Sign
  int : List Char
  /-- the digits after the point, if there is one -/
  fraction : Option (List Char)
  exponent : Option Exponent
  int_digits : ∀ c ∈ int, c.isDigit = true
  fraction_digits : ∀ c ∈ fraction.getD [], c.isDigit = true
  nonempty : int ≠ [] ∨ fraction.getD [] ≠ []

namespace NumericLiteral

def fractionText (n : NumericLiteral) : List Char := fractionTextOf n.fraction

def exponentText (n : NumericLiteral) : List Char := exponentTextOf n.exponent

def text (n : NumericLiteral) : List Char :=
  n.sign.text ++ (n.int ++ (n.fractionText ++ n.exponentText))

def exponentValue (n : NumericLiteral) : Int := exponentValueOf n.exponent

/-- An integer literal has neither point nor exponent. -/
def Integer (n : NumericLiteral) : Prop := n.fraction = none ∧ n.exponent = none

instance (n : NumericLiteral) : Decidable n.Integer :=
  decidable_of_iff (n.fraction = none ∧ n.exponent.isNone) (by simp [Integer])

/-- The number a literal denotes. -/
def value (n : NumericLiteral) : ℚ :=
  (if n.sign.negative then -1 else 1) *
    (digitsValue n.int + digitsValue (n.fraction.getD []) / 10 ^ (n.fraction.getD []).length) *
    (10 : ℚ) ^ n.exponentValue

/-- The `Decimal` with the digits of the literal. -/
def number (n : NumericLiteral) : DecimalNumber where
  negative := n.sign.negative
  coefficient := digitsValue (n.int ++ n.fraction.getD [])
  exponent := n.exponentValue - (n.fraction.getD []).length

end NumericLiteral

def DecimalNumber.value (d : DecimalNumber) : ℚ :=
  (if d.negative then -1 else 1) * d.coefficient * (10 : ℚ) ^ d.exponent

theorem digitsValue_append (xs ys : List Char) :
    digitsValue (xs ++ ys) = 10 ^ ys.length * digitsValue xs + digitsValue ys := by
  show Nat.ofDigitChars 10 (xs ++ ys) 0 = _
  rw [Nat.ofDigitChars_append, Nat.ofDigitChars_eq_ofDigitChars_zero]
  rfl

theorem digitsValue_toDigits (n : Nat) : digitsValue (Nat.toDigits 10 n) = n :=
  Nat.ofDigitChars_ten_toDigits

theorem digitsValue_zeros (k : Nat) : digitsValue (List.replicate k '0') = 0 := by
  show Nat.ofDigitChars 10 (List.replicate k '0') 0 = 0
  rw [Nat.ofDigitChars_replicate_zero, Nat.mul_zero]

theorem NumericLiteral.number_value (n : NumericLiteral) : n.number.value = n.value := by
  have hten : (10 : ℚ) ≠ 0 := by norm_num
  simp only [DecimalNumber.value, number, value, digitsValue_append]
  rw [zpow_sub₀ hten, zpow_natCast]
  push_cast
  field_simp

/-! ## Signs and digits -/

theorem isDigit_sign {c : Char} (h : c.isDigit = true) : c ≠ '-' ∧ c ≠ '+' := by
  constructor
  · rintro rfl
    exact absurd h (by decide)
  · rintro rfl
    exact absurd h (by decide)

theorem takeSign_text {s : Sign} {rest : List Char}
    (hrest : ∀ c ∈ rest.head?, c ≠ '-' ∧ c ≠ '+') :
    takeSign (s.text ++ rest) = (s.negative, rest) := by
  cases s with
  | absent =>
    cases rest with
    | nil => rfl
    | cons c cs =>
      obtain ⟨hminus, hplus⟩ := hrest c rfl
      show takeSign (c :: cs) = _
      unfold takeSign
      split
      · next heq => exact absurd (List.cons.inj heq).1 hminus
      · next heq => exact absurd (List.cons.inj heq).1 hplus
      · rfl
  | plus => rfl
  | minus => rfl

theorem takeSign_source (text : List Char) :
    ∃ s : Sign, text = s.text ++ (takeSign text).2 ∧ s.negative = (takeSign text).1 := by
  unfold takeSign
  split
  · exact ⟨.minus, rfl, rfl⟩
  · exact ⟨.plus, rfl, rfl⟩
  · exact ⟨.absent, rfl, rfl⟩

theorem takeWhile_digits {digits rest : List Char} (h : ∀ c ∈ digits, c.isDigit = true)
    (hrest : ∀ c ∈ rest.head?, c.isDigit = false) :
    (digits ++ rest).takeWhile Char.isDigit = digits := by
  rw [List.takeWhile_append_of_pos h]
  cases rest with
  | nil => exact List.append_nil _
  | cons c rest =>
    rw [List.takeWhile_cons_of_neg (by rw [hrest c rfl]; decide)]
    exact List.append_nil _

theorem dropWhile_digits {digits rest : List Char} (h : ∀ c ∈ digits, c.isDigit = true)
    (hrest : ∀ c ∈ rest.head?, c.isDigit = false) :
    (digits ++ rest).dropWhile Char.isDigit = rest := by
  rw [List.dropWhile_append_of_pos h]
  cases rest with
  | nil => rfl
  | cons c rest => exact List.dropWhile_cons_of_neg (by rw [hrest c rfl]; decide)

theorem all_takeWhile_digits (text : List Char) :
    ∀ c ∈ text.takeWhile Char.isDigit, c.isDigit = true :=
  fun _ hc => List.mem_takeWhile_imp hc

/-! ## Reading a literal -/

theorem Exponent.head_digits (e : Exponent) :
    ∀ c ∈ e.digits.head?, c ≠ '-' ∧ c ≠ '+' := by
  intro c hc
  exact isDigit_sign (e.isDigit c (List.mem_of_mem_head? hc))

theorem takeExponent_text (e : Exponent) : takeExponent e.text = some e.value := by
  have hsign := takeSign_text (s := e.sign) e.head_digits
  have hall : e.digits.all Char.isDigit = true := List.all_eq_true.mpr e.isDigit
  simp only [Exponent.text, takeExponent]
  rw [if_pos e.marks, hsign]
  simp only
  rw [if_neg (by simp [e.nonempty, hall])]
  rfl

theorem takeExponent_source {text : List Char} {i : Int} (h : takeExponent text = some i) :
    (text = [] ∧ i = 0) ∨ ∃ e : Exponent, e.text = text ∧ e.value = i := by
  cases text with
  | nil => exact .inl ⟨rfl, (Option.some.inj h).symm⟩
  | cons c cs =>
    right
    simp only [takeExponent] at h
    split at h
    · next hmarker =>
        obtain ⟨s, htext, hneg⟩ := takeSign_source cs
        split at h
        · cases h
        · next hdigits =>
            rw [not_or, Bool.not_eq_true', Bool.not_eq_false] at hdigits
            refine ⟨⟨c, s, (takeSign cs).2, hmarker, List.all_eq_true.mp hdigits.2, hdigits.1⟩,
              ?_, ?_⟩
            · rw [Exponent.text, ← htext]
            · rw [Exponent.value, hneg]
              exact Option.some.inj h
    · cases h

/-- The text of a literal after its sign and its integer part. -/
def NumericLiteral.tailText (n : NumericLiteral) : List Char := n.fractionText ++ n.exponentText

theorem NumericLiteral.exponentText_head (n : NumericLiteral) :
    ∀ c ∈ n.exponentText.head?, c.isDigit = false ∧ c ≠ '.' := by
  intro c hc
  cases he : n.exponent with
  | none =>
    rw [exponentText, he] at hc
    cases hc
  | some e =>
    rw [exponentText, he] at hc
    cases hc
    rcases e.marks with h | h <;> rw [h] <;> decide

theorem NumericLiteral.tailText_head (n : NumericLiteral) :
    ∀ c ∈ n.tailText.head?, c.isDigit = false := by
  intro c hc
  cases hf : n.fraction with
  | none =>
    rw [tailText, fractionText, hf] at hc
    exact (n.exponentText_head c hc).1
  | some digits =>
    rw [tailText, fractionText, hf] at hc
    cases hc
    decide

theorem NumericLiteral.takeExponent_exponentText (n : NumericLiteral) :
    takeExponent n.exponentText = some n.exponentValue := by
  cases he : n.exponent with
  | none =>
    rw [exponentText, exponentValue, he]
    rfl
  | some e =>
    rw [exponentText, exponentValue, he]
    exact takeExponent_text e

theorem NumericLiteral.clean (n : NumericLiteral) :
    ∀ c ∈ n.text, Text.isSpace c = false ∧ c ≠ '_' := by
  have hdigit {c : Char} (h : c.isDigit = true) : Text.isSpace c = false ∧ c ≠ '_' := by
    have h48 : 48 ≤ c.toNat ∧ c.toNat ≤ 57 := by
      rw [Char.isDigit, Bool.and_eq_true, decide_eq_true_iff, decide_eq_true_iff] at h
      exact ⟨UInt32.le_iff_toNat_le.mp h.1, UInt32.le_iff_toNat_le.mp h.2⟩
    constructor
    · simp [Text.isSpace]
      omega
    · rintro rfl
      exact absurd h48.2 (by decide)
  have hsign (s : Sign) {c : Char} (h : c ∈ s.text) : Text.isSpace c = false ∧ c ≠ '_' := by
    cases s with
    | absent => cases h
    | plus =>
      rw [List.mem_singleton.mp h]
      decide
    | minus =>
      rw [List.mem_singleton.mp h]
      decide
  intro c hc
  rcases List.mem_append.mp hc with hc | hc
  · exact hsign _ hc
  rcases List.mem_append.mp hc with hc | hc
  · exact hdigit (n.int_digits c hc)
  rcases List.mem_append.mp hc with hc | hc
  · cases hf : n.fraction with
    | none =>
      rw [fractionText, hf] at hc
      cases hc
    | some digits =>
      rw [fractionText, hf] at hc
      rcases List.mem_cons.mp hc with rfl | hc
      · decide
      · exact hdigit (n.fraction_digits c (by rwa [hf]))
  · cases he : n.exponent with
    | none =>
      rw [exponentText, he] at hc
      cases hc
    | some e =>
      rw [exponentText, he] at hc
      rcases List.mem_cons.mp hc with rfl | hc
      · rcases e.marks with h | h <;> rw [h] <;> decide
      rcases List.mem_append.mp hc with hc | hc
      · exact hsign _ hc
      · exact hdigit (e.isDigit c hc)

theorem filter_clean {text : List Char} (h : '_' ∉ text) : text.filter (· ≠ '_') = text := by
  rw [List.filter_eq_self]
  intro c hc
  rw [decide_eq_true_iff]
  rintro rfl
  exact h hc

theorem NumericLiteral.strip_text (n : NumericLiteral) : Text.strip n.text = n.text := by
  apply Text.stripBy_eq_self
  · intro c hc
    exact (n.clean c (List.mem_of_mem_head? hc)).1
  · intro c hc
    exact (n.clean c (List.mem_of_mem_getLast? hc)).1

theorem NumericLiteral.unsigned_head (n : NumericLiteral) :
    ∃ c cs, n.int ++ n.tailText = c :: cs ∧ (c = '.' ∨ c.isDigit = true) := by
  cases hi : n.int with
  | cons d ds => exact ⟨d, ds ++ n.tailText, rfl, .inr (n.int_digits d (hi ▸ List.mem_cons_self))⟩
  | nil =>
    -- without an integer part there is a fraction
    cases hf : n.fraction with
    | none =>
      have hnonempty := n.nonempty
      rw [hi, hf] at hnonempty
      rcases hnonempty with h | h <;> exact absurd rfl h
    | some digits =>
      refine ⟨'.', digits ++ n.exponentText, ?_, .inl rfl⟩
      rw [tailText, fractionText, hf]
      rfl

theorem NumericLiteral.takeSign_literal (n : NumericLiteral) :
    takeSign n.text = (n.sign.negative, n.int ++ n.tailText) := by
  apply takeSign_text
  intro c hc
  obtain ⟨d, cs, heq, hd⟩ := n.unsigned_head
  have hhead : c ∈ (n.int ++ n.tailText).head? := hc
  rw [heq] at hhead
  obtain rfl : d = c := Option.some.inj hhead
  rcases hd with rfl | hd
  · decide
  · exact isDigit_sign hd

/-- The digits and the rest that `Decimal` reads after a point. -/
def splitFraction : List Char → List Char × List Char
  | '.' :: cs => (cs.takeWhile Char.isDigit, cs.dropWhile Char.isDigit)
  | cs => ([], cs)

theorem NumericLiteral.splitFraction_tailText (n : NumericLiteral) :
    splitFraction n.tailText = (n.fraction.getD [], n.exponentText) := by
  have hexponent := n.exponentText_head
  cases hf : n.fraction with
  | none =>
    have htail : n.tailText = n.exponentText := by
      rw [tailText, fractionText, hf]
      rfl
    rw [htail]
    unfold splitFraction
    split
    · next heq =>
        rw [heq] at hexponent
        exact absurd rfl (hexponent '.' rfl).2
    · rfl
  | some digits =>
    have htail : n.tailText = '.' :: (digits ++ n.exponentText) := by
      rw [tailText, fractionText, hf]
      rfl
    have hdigits : ∀ c ∈ digits, c.isDigit = true := by
      intro c hc
      exact n.fraction_digits c (by rwa [hf])
    rw [htail]
    show ((digits ++ n.exponentText).takeWhile Char.isDigit,
      (digits ++ n.exponentText).dropWhile Char.isDigit) = _
    rw [takeWhile_digits hdigits fun c hc => (hexponent c hc).1,
      dropWhile_digits hdigits fun c hc => (hexponent c hc).1]
    rfl

theorem parseDecimal_eq {text : String} {core : List Char}
    (h : (Text.strip text.toList).filter (· ≠ '_') = core) :
    parseDecimal text =
      (let rest := (takeSign core).2
       let (fraction, afterFraction) := splitFraction (rest.dropWhile Char.isDigit)
       if rest.takeWhile Char.isDigit = [] ∧ fraction = [] then
         (specialText rest).map fun t => .special (if (takeSign core).1 then "-" ++ t else t)
       else
         (takeExponent afterFraction).map fun exponent =>
           .finite ⟨(takeSign core).1, digitsValue (rest.takeWhile Char.isDigit ++ fraction),
             exponent - fraction.length⟩) := by
  unfold parseDecimal
  rw [h]
  rfl

theorem parseDecimal_text (n : NumericLiteral) :
    parseDecimal (String.ofList n.text) = some (.finite n.number) := by
  have hfilter : (Text.strip (String.ofList n.text).toList).filter (· ≠ '_') = n.text := by
    rw [String.toList_ofList, n.strip_text, filter_clean fun h => (n.clean _ h).2 rfl]
  have hsign := n.takeSign_literal
  have hsome : ¬ (n.int = [] ∧ n.fraction.getD [] = []) := by
    rw [not_and_or]
    exact n.nonempty
  rw [parseDecimal_eq hfilter, hsign]
  simp only
  rw [takeWhile_digits n.int_digits n.tailText_head, dropWhile_digits n.int_digits n.tailText_head,
    n.splitFraction_tailText]
  simp only
  rw [if_neg hsome, n.takeExponent_exponentText]
  rfl

theorem splitFraction_source (text : List Char) :
    ∃ fraction : Option (List Char), (splitFraction text).1 = fraction.getD [] ∧
      (∀ c ∈ fraction.getD [], c.isDigit = true) ∧
      text = fractionTextOf fraction ++ (splitFraction text).2 := by
  unfold splitFraction
  split
  · next cs =>
      refine ⟨some (cs.takeWhile Char.isDigit), rfl, all_takeWhile_digits cs, ?_⟩
      show _ = '.' :: (_ ++ _)
      rw [List.takeWhile_append_dropWhile]
  · exact ⟨none, rfl, nofun, rfl⟩

/-- A decimal was read from a numeric literal. -/
theorem parseDecimal_source {text : String} {d : DecimalNumber}
    (h : parseDecimal text = some (.finite d)) (hscore : '_' ∉ Text.strip text.toList) :
    ∃ n : NumericLiteral, n.text = Text.strip text.toList ∧ n.number = d := by
  rw [parseDecimal_eq (filter_clean hscore)] at h
  obtain ⟨s, htext, hneg⟩ := takeSign_source (Text.strip text.toList)
  generalize (takeSign (Text.strip text.toList)).2 = rest at h htext
  generalize (takeSign (Text.strip text.toList)).1 = negative at h hneg
  obtain ⟨fraction, hfraction, hdigits, htail⟩ :=
    splitFraction_source (rest.dropWhile Char.isDigit)
  simp only at h
  split at h
  · -- infinities and NaNs are not finite
    cases hs : specialText rest with
    | none =>
      rw [hs] at h
      cases h
    | some t =>
      rw [hs] at h
      cases h
  · next hnonempty =>
      obtain ⟨i, hexponent, hd⟩ := Option.map_eq_some_iff.mp h
      have hd' := Decimal.finite.inj hd
      rw [hfraction] at hnonempty hd'
      have hint := all_takeWhile_digits rest
      have hwhole (tail : List Char)
        (hexp : tail = (splitFraction (rest.dropWhile Char.isDigit)).2) :
          Text.strip text.toList = s.text ++ (rest.takeWhile Char.isDigit ++
            (fractionTextOf fraction ++ tail)) := by
        rw [hexp, ← htail, List.takeWhile_append_dropWhile, htext]
      rcases takeExponent_source hexponent with ⟨hnil, hzero⟩ | ⟨e, htext', hvalue⟩
      · refine ⟨⟨s, rest.takeWhile Char.isDigit, fraction, none, hint, hdigits,
          not_and_or.mp hnonempty⟩, ?_, ?_⟩
        · exact (hwhole [] hnil.symm).symm
        · rw [← hd', ← hneg, hzero]
          rfl
      · refine ⟨⟨s, rest.takeWhile Char.isDigit, fraction, some e, hint, hdigits,
          not_and_or.mp hnonempty⟩, ?_, ?_⟩
        · exact (hwhole e.text htext').symm
        · rw [← hd', ← hneg, ← hvalue]
          rfl

/-! ## Printing a number -/

theorem isDigit_replicate {k : Nat} : ∀ c ∈ List.replicate k '0', c.isDigit = true := by
  intro c hc
  rw [(List.mem_replicate.mp hc).2]
  decide

/-- The exponent printed for a number that is moved by `i` digits. -/
def printedExponent (i : Int) : Exponent where
  marker := 'E'
  sign := if i < 0 then .minus else .plus
  digits := Nat.toDigits 10 i.natAbs
  marks := .inl rfl
  isDigit := fun _ hc => isDigit_toDigits hc
  nonempty := Nat.toDigits_ne_nil

theorem printedExponent_text (i : Int) :
    (printedExponent i).text = ("E" ++ signedText i).toList := by
  rw [String.toList_append]
  cases i with
  | ofNat n =>
    have hnonneg : ¬ ((n : Int) < 0) := by omega
    simp only [Exponent.text, printedExponent, signedText, Int.ofNat_eq_natCast, if_neg hnonneg]
    rw [String.toList_append, toList_toString_nat, Int.natAbs_natCast]
    rfl
  | negSucc n =>
    have hneg : Int.negSucc n < 0 := Int.negSucc_lt_zero n
    simp only [Exponent.text, printedExponent, signedText, if_pos hneg]
    rw [toList_toString_neg]
    rfl

theorem printedExponent_value (i : Int) : (printedExponent i).value = i := by
  simp only [Exponent.value, printedExponent, digitsValue_toDigits]
  by_cases hneg : i < 0
  · rw [if_pos hneg, if_pos (by rfl)]
    omega
  · rw [if_neg hneg, if_neg (by decide)]
    omega

theorem exists_printedExponent (i : Int) :
    ∃ e : Option Exponent, exponentTextOf e = (if i = 0 then "" else "E" ++ signedText i).toList ∧
      exponentValueOf e = i := by
  by_cases hzero : i = 0
  · refine ⟨none, ?_, hzero.symm⟩
    rw [if_pos hzero]
    rfl
  · refine ⟨some (printedExponent i), ?_, printedExponent_value i⟩
    rw [if_neg hzero]
    exact printedExponent_text i

/-- The digits of a number as `str` lays them out around the point at `dot`. -/
structure Layout (digits : List Char) (dot : Int) (body : List Char) where
  int : List Char
  fraction : Option (List Char)
  int_digits : ∀ c ∈ int, c.isDigit = true
  fraction_digits : ∀ c ∈ fraction.getD [], c.isDigit = true
  nonempty : int ≠ []
  text : int ++ fractionTextOf fraction = body
  value : digitsValue (int ++ fraction.getD []) =
    10 ^ (dot - digits.length).toNat * digitsValue digits
  scale : ((fraction.getD []).length : Int) = max (digits.length - dot) 0

theorem exists_layout {digits : List Char} (hdigits : ∀ c ∈ digits, c.isDigit = true)
    (hne : digits ≠ []) (dot : Int) :
    Nonempty (Layout digits dot
      (if dot ≤ 0 then ['0', '.'] ++ List.replicate (-dot).toNat '0' ++ digits
        else if digits.length ≤ dot then digits ++ List.replicate (dot.toNat - digits.length) '0'
        else digits.take dot.toNat ++ ['.'] ++ digits.drop dot.toNat)) := by
  have hpos : 0 < digits.length := List.length_pos_of_ne_nil hne
  by_cases hzero : dot ≤ 0
  · rw [if_pos hzero]
    refine ⟨⟨['0'], some (List.replicate (-dot).toNat '0' ++ digits),
      List.forall_mem_singleton.mpr rfl, ?_, nofun, ?_, ?_,
      ?_⟩⟩
    · intro c hc
      exact (List.mem_append.mp hc).elim (isDigit_replicate c) (hdigits c)
    · rw [List.append_assoc]
      rfl
    · have hnat : (dot - digits.length).toNat = 0 := by omega
      rw [Option.getD_some, digitsValue_append, digitsValue_append, digitsValue_zeros, hnat]
      simp [digitsValue]
    · rw [Option.getD_some, List.length_append, List.length_replicate]
      omega
  · rw [if_neg hzero]
    by_cases hlong : (digits.length : Int) ≤ dot
    · rw [if_pos hlong]
      refine
      ⟨⟨digits ++ List.replicate (dot.toNat - digits.length) '0', none, ?_, nofun, ?_, ?_, ?_,
        ?_⟩⟩
      · intro c hc
        exact (List.mem_append.mp hc).elim (hdigits c) (isDigit_replicate c)
      · exact List.append_ne_nil_of_left_ne_nil hne _
      · exact List.append_nil _
      · have hnat : (dot - digits.length).toNat = dot.toNat - digits.length := by omega
        rw [Option.getD_none, List.append_nil, digitsValue_append, digitsValue_zeros, hnat,
          List.length_replicate, Nat.add_zero]
      · rw [Option.getD_none, List.length_nil]
        omega
    · rw [if_neg hlong]
      refine ⟨⟨digits.take dot.toNat, some (digits.drop dot.toNat), ?_, ?_, ?_, ?_, ?_, ?_⟩⟩
      · exact fun c hc => hdigits c (List.mem_of_mem_take hc)
      · exact fun c hc => hdigits c (List.mem_of_mem_drop hc)
      · intro hnil
        have hlen := congrArg List.length hnil
        rw [List.length_take, List.length_nil] at hlen
        omega
      · rw [List.append_assoc]
        rfl
      · have hnat : (dot - digits.length).toNat = 0 := by omega
        rw [Option.getD_some, List.take_append_drop, hnat, Nat.pow_zero, Nat.one_mul]
      · rw [Option.getD_some, List.length_drop]
        omega

/-- The text of a decimal is a literal of it. -/
theorem text_isLiteral (d : DecimalNumber) :
    ∃ n : NumericLiteral, n.text = d.text.toList ∧ n.number = d := by
  obtain ⟨negative, coefficient, exponent⟩ := d
  have hdigits : ∀ c ∈ Nat.toDigits 10 coefficient, c.isDigit = true :=
    fun c hc => isDigit_toDigits hc
  have hne : Nat.toDigits 10 coefficient ≠ [] := Nat.toDigits_ne_nil
  have hpos : 0 < (Nat.toDigits 10 coefficient).length := List.length_pos_of_ne_nil hne
  have hvalue : digitsValue (Nat.toDigits 10 coefficient) = coefficient := digitsValue_toDigits _
  obtain ⟨s, hs, hsneg⟩ : ∃ s : Sign, s.text = (if negative then "-" else "").toList ∧
      s.negative = negative := by
    cases negative with
    | true => exact ⟨.minus, rfl, rfl⟩
    | false => exact ⟨.absent, rfl, rfl⟩
  simp only [DecimalNumber.text]
  generalize Nat.toDigits 10 coefficient = digits at *
  obtain ⟨left, hleft⟩ : ∃ left : Int, left = exponent + digits.length := ⟨_, rfl⟩
  rw [← hleft]
  obtain ⟨dot, hdot⟩ : ∃ dot : Int, dot = if exponent ≤ 0 ∧ -6 < left then left else 1 := ⟨_, rfl⟩
  rw [← hdot]
  obtain ⟨e, hetext, hevalue⟩ := exists_printedExponent (left - dot)
  obtain ⟨layout⟩ := exists_layout hdigits hne dot
  have hbody := layout.text
  refine ⟨⟨s, layout.int, layout.fraction, e, layout.int_digits, layout.fraction_digits,
    .inl layout.nonempty⟩, ?_, ?_⟩
  · rw [String.toList_append, String.toList_append, String.toList_ofList, ← hs]
    have hexponent : (if left = dot then "" else "E" ++ signedText (left - dot)).toList =
        exponentTextOf e := by
      rw [hetext]
      simp only [Int.sub_eq_zero]
    show s.text ++ (layout.int ++ (fractionTextOf layout.fraction ++ exponentTextOf e)) = _
    rw [hexponent, ← List.append_assoc layout.int, hbody, ← List.append_assoc s.text]
  · -- the point stands inside the digits or right after them
    have hdot' : dot ≤ digits.length ∧ (dot = left ∨ dot = 1) := by
      rw [hdot]
      split
      · omega
      · omega
    have hnat : (dot - digits.length).toNat = 0 := by omega
    have hscale := layout.scale
    have hcoefficient := layout.value
    rw [hnat, Nat.pow_zero, Nat.one_mul, hvalue] at hcoefficient
    show DecimalNumber.mk s.negative (digitsValue (layout.int ++ layout.fraction.getD []))
      (exponentValueOf e - (layout.fraction.getD []).length) = _
    rw [hsneg, hcoefficient, hevalue, hscale]
    congr 1
    omega

theorem parseDecimal_printed (d : DecimalNumber) : parseDecimal d.text = some (.finite d) := by
  obtain ⟨n, htext, rfl⟩ := text_isLiteral d
  have hread := parseDecimal_text n
  rwa [htext, String.ofList_toList] at hread

theorem numericValue_printed (d : DecimalNumber) : numericValue d.text = some d.value := by
  rw [numericValue, parseDecimal_printed]
  rfl

/-! ## Integers -/

/-- The value a sign and digits write. -/
def signedValue (s : Sign) (digits : List Char) : Int :=
  if s.negative then -(digitsValue digits : Int) else digitsValue digits

theorem NumericLiteral.value_integer {n : NumericLiteral} (h : n.Integer) :
    n.value = (signedValue n.sign n.int : Int) := by
  rw [value, exponentValue, h.1, h.2, signedValue]
  simp only [Option.getD_none, exponentValueOf, List.length_nil, pow_zero, zpow_zero]
  split
  · simp [digitsValue]
  · simp [digitsValue]

theorem numericValue_text {n : NumericLiteral} {text : String} (h : n.text = text.toList) :
    numericValue text = some n.value := by
  have hread := parseDecimal_text n
  rw [h, String.ofList_toList] at hread
  rw [numericValue, hread]
  exact congrArg some n.number_value

theorem toString_isLiteral (i : Int) :
    ∃ n : NumericLiteral, n.text = (toString i).toList ∧ n.Integer ∧ n.value = i := by
  have hdigits (k : Nat) : ∀ c ∈ Nat.toDigits 10 k, c.isDigit = true :=
    fun _ hc => isDigit_toDigits hc
  cases i with
  | ofNat k =>
    refine ⟨⟨.absent, Nat.toDigits 10 k, none, none, hdigits k, nofun, .inl Nat.toDigits_ne_nil⟩,
      ?_, ⟨rfl, rfl⟩, ?_⟩
    · rw [Int.ofNat_eq_natCast, toList_toString_nat]
      exact List.append_nil _
    · rw [NumericLiteral.value_integer ⟨rfl, rfl⟩]
      show ((signedValue .absent (Nat.toDigits 10 k) : Int) : ℚ) = _
      rw [signedValue, digitsValue_toDigits]
      rfl
  | negSucc k =>
    refine ⟨⟨.minus, Nat.toDigits 10 (k + 1), none, none, hdigits (k + 1), nofun,
      .inl Nat.toDigits_ne_nil⟩, ?_, ⟨rfl, rfl⟩, ?_⟩
    · rw [toList_toString_neg]
      exact congrArg ('-' :: ·) (List.append_nil _)
    · rw [NumericLiteral.value_integer ⟨rfl, rfl⟩]
      show ((signedValue .minus (Nat.toDigits 10 (k + 1)) : Int) : ℚ) = _
      rw [signedValue, digitsValue_toDigits]
      rfl

theorem numericValue_toString (i : Int) : numericValue (toString i) = some (i : ℚ) := by
  obtain ⟨n, htext, -, hvalue⟩ := toString_isLiteral i
  rw [numericValue_text htext, hvalue]

theorem NumericLiteral.tailText_eq_nil {n : NumericLiteral} : n.tailText = [] ↔ n.Integer := by
  rw [tailText, List.append_eq_nil_iff, fractionText, exponentText, Integer]
  constructor
  · rintro ⟨hf, he⟩
    constructor
    · cases h : n.fraction with
      | none => rfl
      | some digits =>
        rw [h] at hf
        cases hf
    · cases h : n.exponent with
      | none => rfl
      | some e =>
        rw [h] at he
        cases he
  · rintro ⟨hf, he⟩
    rw [hf, he]
    exact ⟨rfl, rfl⟩

end AtlasDb.Runtime
