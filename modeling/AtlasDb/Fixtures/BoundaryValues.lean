import AtlasDb.Fixtures.Compiler
import AtlasDb.Lib.Rounding
import AtlasDb.Runtime.NumericLiterals

/-!
# Boundary values

`testkit/boundary_values.py: BoundaryValueGenerator.around` gives the values just below, at and just
above a threshold. Decimals are added in the default context, which keeps 28 digits, and printed
with the digits of the scale. No value is compared with the ends of its type.
-/

namespace AtlasDb.Fixtures

open Core Lib AtlasDb.Runtime

/-! ## Decimal arithmetic -/

/-- The precision of the default context. -/
def contextPrecision : Nat := 28

/-- The coefficient with its sign. -/
def signedCoefficient (d : DecimalNumber) : Int :=
  if d.negative then -(d.coefficient : Int) else d.coefficient

/-- A number rounded to the precision of the context. -/
def inContext (d : DecimalNumber) : DecimalNumber where
  negative := d.negative
  coefficient := (roundDigits 10 contextPrecision d.coefficient).1
  exponent := d.exponent + (roundDigits 10 contextPrecision d.coefficient).2

/-- The exact sum, at the smaller exponent. -/
def exactSum (a b : DecimalNumber) : DecimalNumber :=
  let exponent := min a.exponent b.exponent
  let sum := signedCoefficient a * 10 ^ (a.exponent - exponent).toNat +
    signedCoefficient b * 10 ^ (b.exponent - exponent).toNat
  ⟨decide (sum < 0) || (decide (sum = 0) && (a.negative && b.negative)), sum.natAbs, exponent⟩

/-- `a + b`. -/
def decimalSum (a b : DecimalNumber) : DecimalNumber := inContext (exactSum a b)

/-- `a - b`: the second number is added with its sign turned. -/
def decimalDifference (a b : DecimalNumber) : DecimalNumber :=
  decimalSum a { b with negative := !b.negative }

/-- The coefficient at the exponent `-scale`, rounded half to even. -/
def rescaled (scale : Nat) (d : DecimalNumber) : Nat :=
  let shift := d.exponent + scale
  if 0 ≤ shift then d.coefficient * 10 ^ shift.toNat
  else halfEven d.coefficient (10 ^ (-shift).toNat)

/-- `format(d, f".{scale}f")` -/
def formatFixed (scale : Nat) (d : DecimalNumber) : String :=
  let shown := Nat.toDigits 10 (rescaled scale d)
  let digits := List.replicate (scale + 1 - shown.length) '0' ++ shown
  let point := digits.length - scale
  String.ofList ((if d.negative then ['-'] else []) ++ (digits.take point ++
    (if scale = 0 then [] else '.' :: digits.drop point)))

/-! ## The generator -/

/-- Digits, with single underscores between them. -/
def groupedDigits : List Char → Bool
  | [] => false
  | [c] => c.isDigit
  | c :: '_' :: cs => c.isDigit && groupedDigits cs
  | c :: cs => c.isDigit && groupedDigits cs

/-- `int(text)` -/
def intOf (text : String) : Option Int :=
  let (negative, digits) := takeSign (Text.strip text.toList)
  if groupedDigits digits then
    let n := digitsValue (digits.filter (· ≠ '_'))
    some (if negative then -(n : Int) else n)
  else none

/-- What `around` raises. -/
inductive BoundaryError
  | unsupportedFamily (family : SqlTypeFamily)
  | unsupportedOperator (operator : String)
  | invalidInteger (threshold : String)
  /-- raised by `Decimal` -/
  | invalidOperation (condition : String)
deriving DecidableEq

def BoundaryError.text : BoundaryError → String
  | unsupportedFamily family => "Boundary generation is unsupported for " ++ family.value
  | unsupportedOperator operator => "Unsupported comparison operator: " ++ operator
  | invalidInteger threshold => "invalid literal for int() with base 10: '" ++ threshold ++ "'"
  | invalidOperation condition => "[<class 'decimal." ++ condition ++ "'>]"

def comparisonOperators : List String := [">=", "<=", ">", "<", "=", "<>", "!="]

/-- `_select`. -/
def select {α : Type} (operator : String) (below at_ above : α) : Except BoundaryError (List α) :=
  if operator ∈ comparisonOperators then .ok [below, at_, above]
  else .error (.unsupportedOperator operator)

/-- `Decimal(1).scaleb(-scale)` -/
def quantum (scale : Nat) : DecimalNumber := ⟨false, 1, -(scale : Int)⟩

/-- The branch of `around` for the integer families. -/
def aroundInteger (operator threshold : String) : Except BoundaryError (List String) :=
  match intOf threshold with
  | none => .error (.invalidInteger threshold)
  | some value =>
    (select operator (value - 1) value (value + 1)).map fun items => items.map toString

/-- The branch of `around` for DECIMAL. -/
def aroundDecimal (scale : Nat) (operator threshold : String) :
    Except BoundaryError (List String) :=
  match parseDecimal threshold with
  | none => .error (.invalidOperation "ConversionSyntax")
  | some (.special text) =>
    -- a signalling NaN cannot be added to, any other is handed on
    if "sNaN".toList <:+: text.toList then .error (.invalidOperation "InvalidOperation")
    else select operator text text text
  | some (.finite value) =>
    (select operator (decimalDifference value (quantum scale)) value
      (decimalSum value (quantum scale))).map fun items => items.map (formatFixed scale)

/-- `around`. -/
def around (sqlType : CanonicalSqlType) (operator threshold : String) :
    Except BoundaryError (List String) :=
  match sqlType.family with
  | .smallInteger | .integer | .bigInteger => aroundInteger operator threshold
  | .decimal => aroundDecimal (sqlType.scale.getD 0) operator threshold
  | family => .error (.unsupportedFamily family)

/-! ## Types and usable values -/

/-- The values of a numeric type: integers between two ends, counted in units of the scale. -/
structure NumericType where
  scale : Nat
  least : Int
  greatest : Int
deriving DecidableEq

def decimalType (precision scale : Nat) : NumericType :=
  ⟨scale, -(10 ^ precision - 1), 10 ^ precision - 1⟩

/-- SMALLINT, INTEGER, BIGINT and DECIMAL(p,s) with `p` up to 31. -/
def numericType (sqlType : CanonicalSqlType) : Option NumericType :=
  match sqlType.family, sqlType.precision with
  | .smallInteger, _ => some ⟨0, -2 ^ 15, 2 ^ 15 - 1⟩
  | .integer, _ => some ⟨0, -2 ^ 31, 2 ^ 31 - 1⟩
  | .bigInteger, _ => some ⟨0, -2 ^ 63, 2 ^ 63 - 1⟩
  | .decimal, some precision =>
    if 1 ≤ precision ∧ precision ≤ 31 ∧ sqlType.scale.getD 0 ≤ precision then
      some (decimalType precision (sqlType.scale.getD 0))
    else none
  | _, _ => none

/-- The text writes so many units of the scale, with all digits of the scale and no exponent. -/
def Shows (scale : Nat) (text : String) (units : Int) : Prop :=
  ∃ n : NumericLiteral, n.text = text.toList ∧ n.exponent = none ∧
    (n.fraction.getD []).length = scale ∧ n.value = units / 10 ^ scale

/-- Texts of values of the type, strictly increasing: the threshold, and those of its two neighbours
that lie in the type. -/
def Usable (type : NumericType) (threshold : Int) (texts : List String) : Prop :=
  ∃ units : List Int, List.Forall₂ (Shows type.scale) texts units ∧
    (∀ u ∈ units, type.least ≤ u ∧ u ≤ type.greatest) ∧ units.Pairwise (· < ·) ∧
      threshold ∈ units ∧ (∀ u ∈ units, u ≠ threshold → (u - threshold).natAbs = 1) ∧
        ∀ u, (u - threshold).natAbs = 1 → type.least ≤ u ∧ u ≤ type.greatest → u ∈ units

/-! ## Units -/

/-- The number of units of the scale that is printed. -/
def unitsOf (scale : Nat) (d : DecimalNumber) : Int :=
  if d.negative then -(rescaled scale d : Int) else rescaled scale d

theorem value_eq_signed (d : DecimalNumber) :
    d.value = (signedCoefficient d : ℚ) * (10 : ℚ) ^ d.exponent := by
  obtain ⟨negative, coefficient, exponent⟩ := d
  cases negative with
  | true =>
    show (-1 : ℚ) * coefficient * 10 ^ exponent = ((-(coefficient : Int) : Int) : ℚ) * _
    push_cast
    ring
  | false =>
    show (1 : ℚ) * coefficient * 10 ^ exponent = (((coefficient : Int) : Int) : ℚ) * _
    push_cast
    ring

theorem scaled_value (scale : Nat) (d : DecimalNumber) :
    d.value * 10 ^ scale = (signedCoefficient d : ℚ) * (10 : ℚ) ^ (d.exponent + scale) := by
  have hten : (10 : ℚ) ≠ 0 := by norm_num
  rw [value_eq_signed, mul_assoc, zpow_add₀ hten, zpow_natCast]

variable {d : DecimalNumber} {scale : Nat}

theorem unitsOf_of_nonneg (h : 0 ≤ d.exponent + scale) :
    unitsOf scale d = signedCoefficient d * 10 ^ (d.exponent + scale).toNat := by
  rw [unitsOf, signedCoefficient, rescaled]
  rw [if_pos h]
  split
  · push_cast
    ring
  · push_cast
    ring

theorem unitsOf_of_neg {k : Int} (h : ¬ 0 ≤ d.exponent + scale)
    (hk : signedCoefficient d = k * 10 ^ (-(d.exponent + scale)).toNat) : unitsOf scale d = k := by
  have hpos : 0 < 10 ^ (-(d.exponent + scale)).toNat := Nat.pow_pos (by omega)
  have habs : d.coefficient = k.natAbs * 10 ^ (-(d.exponent + scale)).toNat := by
    have hnat := congrArg Int.natAbs hk
    rw [Int.natAbs_mul, Int.natAbs_pow, signedCoefficient] at hnat
    split at hnat
    · simpa using hnat
    · simpa using hnat
  have hrescaled : rescaled scale d = k.natAbs := by
    rw [rescaled]
    rw [if_neg h, habs, halfEven_of_dvd hpos (Nat.dvd_mul_left _ _), Nat.mul_div_cancel _ hpos]
  rw [unitsOf, hrescaled]
  -- the sign of the units is that of the coefficient
  have hpower : (0 : Int) < 10 ^ (-(d.exponent + scale)).toNat := by positivity
  rw [signedCoefficient] at hk
  split
  · next hnegative =>
      rw [if_pos hnegative] at hk
      have hle : k ≤ 0 := by
        by_contra hlt
        have := Int.mul_pos (Int.not_le.mp hlt) hpower
        omega
      omega
  · next hnegative =>
      rw [if_neg hnegative] at hk
      have hle : 0 ≤ k := by
        by_contra hlt
        have := Int.mul_neg_of_neg_of_pos (Int.not_le.mp hlt) hpower
        omega
      omega

theorem unitsOf_value {k : Int} (h : d.value = k / 10 ^ scale) :
    unitsOf scale d = k := by
  have hten : (10 : ℚ) ≠ 0 := by norm_num
  have hunits : (signedCoefficient d : ℚ) * (10 : ℚ) ^ (d.exponent + scale) = k := by
    rw [← scaled_value, h, div_mul_cancel₀]
    exact pow_ne_zero _ hten
  by_cases hshift : 0 ≤ d.exponent + scale
  · rw [unitsOf_of_nonneg hshift]
    rw [← Int.toNat_of_nonneg hshift, zpow_natCast] at hunits
    exact_mod_cast hunits
  · apply unitsOf_of_neg hshift
    have hneg : d.exponent + scale = -((-(d.exponent + scale)).toNat : Int) := by omega
    rw [hneg, zpow_neg, zpow_natCast, ← div_eq_mul_inv,
      div_eq_iff (pow_ne_zero _ hten)] at hunits
    exact_mod_cast hunits

/-! ## Printed numbers -/

/-- A fixed-point text shows its units. -/
theorem shows_formatFixed (scale : Nat) (d : DecimalNumber) :
    Shows scale (formatFixed scale d) (unitsOf scale d) := by
  obtain ⟨shown, hshown⟩ : ∃ shown, shown = Nat.toDigits 10 (rescaled scale d) := ⟨_, rfl⟩
  obtain ⟨digits, hdigits⟩ : ∃ digits,
    digits = List.replicate (scale + 1 - shown.length) '0' ++ shown :=
    ⟨_, rfl⟩
  have hall : ∀ c ∈ digits, c.isDigit = true := by
    intro c hc
    rw [hdigits] at hc
    rcases List.mem_append.mp hc with hc | hc
    · exact isDigit_replicate c hc
    · exact Json.isDigit_toDigits (hshown ▸ hc)
  have hlength : scale + 1 ≤ digits.length := by
    rw [hdigits, List.length_append, List.length_replicate]
    omega
  have hvalue : digitsValue digits = rescaled scale d := by
    rw [hdigits, digitsValue_append, digitsValue_zeros, hshown, digitsValue_toDigits]
    omega
  have hint : digits.take (digits.length - scale) ≠ [] := by
    intro hnil
    have hlen := congrArg List.length hnil
    rw [List.length_take, List.length_nil] at hlen
    omega
  obtain ⟨fraction, hfraction, hfractionText⟩ : ∃ fraction : Option (List Char),
      fraction.getD [] = digits.drop (digits.length - scale) ∧
        fractionTextOf fraction =
          if scale = 0 then [] else '.' :: digits.drop (digits.length - scale) := by
    by_cases hzero : scale = 0
    · refine ⟨none, ?_, by rw [if_pos hzero]; rfl⟩
      rw [hzero, Nat.sub_zero, List.drop_length]
      rfl
    · exact ⟨some (digits.drop (digits.length - scale)), rfl, by rw [if_neg hzero]; rfl⟩
  obtain ⟨s, hs, hsneg⟩ : ∃ s : Sign, s.text = (if d.negative then ['-'] else []) ∧
      s.negative = d.negative := by
    cases d.negative with
    | true => exact ⟨.minus, rfl, rfl⟩
    | false => exact ⟨.absent, rfl, rfl⟩
  refine ⟨⟨s, digits.take (digits.length - scale), fraction, none, ?_, ?_, .inl hint⟩, ?_,
    rfl, ?_, ?_⟩
  · exact fun c hc => hall c (List.mem_of_mem_take hc)
  · intro c hc
    rw [hfraction] at hc
    exact hall c (List.mem_of_mem_drop hc)
  · rw [formatFixed, String.toList_ofList, ← hshown]
    rw [← hdigits, ← hs, ← hfractionText]
    show s.text ++ (_ ++ (fractionTextOf fraction ++ [])) = _
    rw [List.append_nil]
  · show (fraction.getD []).length = scale
    rw [hfraction, List.length_drop]
    omega
  · rw [← NumericLiteral.number_value]
    show (if s.negative then (-1 : ℚ) else 1) *
      (digitsValue (digits.take (digits.length - scale) ++ fraction.getD []) : Nat) *
        (10 : ℚ) ^ ((0 : Int) - (fraction.getD []).length) = _
    rw [hfraction, List.take_append_drop, hvalue, List.length_drop, hsneg, unitsOf]
    have hscale : (0 : Int) - ((digits.length - (digits.length - scale) : Nat) : Int) =
      -(scale : Int) := by
      omega
    rw [hscale, zpow_neg, zpow_natCast, ← div_eq_mul_inv]
    congr 1
    split
    · push_cast
      ring
    · push_cast
      ring

/-! ## Sums in the context -/

theorem signedCoefficient_exactSum (a b : DecimalNumber) :
    signedCoefficient (exactSum a b) =
      signedCoefficient a * 10 ^ (a.exponent - min a.exponent b.exponent).toNat +
        signedCoefficient b * 10 ^ (b.exponent - min a.exponent b.exponent).toNat := by
  unfold exactSum
  simp only
  generalize signedCoefficient a * 10 ^ (a.exponent - min a.exponent b.exponent).toNat +
    signedCoefficient b * 10 ^ (b.exponent - min a.exponent b.exponent).toNat = total
  rw [signedCoefficient]
  by_cases hneg : total < 0
  · rw [if_pos (by simp [hneg])]
    show -((total.natAbs : Nat) : Int) = total
    omega
  · by_cases hzero : total = 0
    · subst hzero
      split
      · rfl
      · rfl
    · rw [if_neg (by simp [hneg, hzero])]
      show ((total.natAbs : Nat) : Int) = total
      omega

theorem exactSum_value (a b : DecimalNumber) : (exactSum a b).value = a.value + b.value := by
  have hten : (10 : ℚ) ≠ 0 := by norm_num
  have hmove (x e : Int) (he : e ≤ x) :
      (10 : ℚ) ^ (x - e).toNat * (10 : ℚ) ^ e = (10 : ℚ) ^ x := by
    rw [← zpow_natCast, ← zpow_add₀ hten]
    congr 1
    omega
  rw [value_eq_signed, signedCoefficient_exactSum, value_eq_signed a, value_eq_signed b]
  show _ * (10 : ℚ) ^ (min a.exponent b.exponent) = _
  push_cast
  rw [add_mul, mul_assoc, mul_assoc, hmove _ _ (min_le_left _ _), hmove _ _ (min_le_right _ _)]

/-- A number that is a whole number of units, at an exponent below the scale: its coefficient counts
the units times a power of ten. -/
theorem coefficient_of_units {u : Int}
    (hvalue : d.value = u / 10 ^ scale) (hexponent : d.exponent ≤ -(scale : Int)) :
    d.coefficient = u.natAbs * 10 ^ (-(d.exponent + scale)).toNat := by
  have hten : (10 : ℚ) ≠ 0 := by norm_num
  have hunits : (signedCoefficient d : ℚ) * (10 : ℚ) ^ (d.exponent + scale) = u := by
    rw [← scaled_value, hvalue, div_mul_cancel₀]
    exact pow_ne_zero _ hten
  have hneg : d.exponent + scale = -((-(d.exponent + scale)).toNat : Int) := by omega
  rw [hneg, zpow_neg, zpow_natCast, ← div_eq_mul_inv, div_eq_iff (pow_ne_zero _ hten)] at hunits
  have hint : signedCoefficient d = u * 10 ^ (-(d.exponent + scale)).toNat := by
    exact_mod_cast hunits
  have hnat := congrArg Int.natAbs hint
  rw [Int.natAbs_mul, Int.natAbs_pow, signedCoefficient] at hnat
  split at hnat
  · simpa using hnat
  · simpa using hnat

theorem inContext_value
    (h : 10 ^ (digitCount 10 d.coefficient - contextPrecision) ∣ d.coefficient) :
    (inContext d).value = d.value := by
  have hten : (10 : ℚ) ≠ 0 := by norm_num
  have hexact := roundDigits_exact (by decide) (by decide) h
  have hcast : (((roundDigits 10 contextPrecision d.coefficient).1 : Nat) : ℚ) *
      10 ^ (roundDigits 10 contextPrecision d.coefficient).2 = d.coefficient := by
    exact_mod_cast hexact
  show (if d.negative then (-1 : ℚ) else 1) *
    ((roundDigits 10 contextPrecision d.coefficient).1 : Nat) *
    (10 : ℚ) ^ (d.exponent + ((roundDigits 10 contextPrecision d.coefficient).2 : Int)) = d.value
  rw [DecimalNumber.value, ← hcast, zpow_add₀ hten, zpow_natCast]
  ring

theorem unitsOf_inContext {u : Int}
    (hvalue : d.value = u / 10 ^ scale) (hexponent : d.exponent ≤ -(scale : Int))
    (hsmall : u.natAbs ≤ 10 ^ contextPrecision) : unitsOf scale (inContext d) = u := by
  apply unitsOf_value
  rw [inContext_value, hvalue]
  rw [coefficient_of_units hvalue hexponent]
  exact dvd_of_scaled (by decide) (by decide) hsmall

theorem ten_dvd_unitsOf_inContext {u : Int}
    (hvalue : d.value = u / 10 ^ scale) (hexponent : d.exponent ≤ -(scale : Int))
    (hlarge : 10 ^ contextPrecision < u.natAbs) : (10 : Int) ∣ unitsOf scale (inContext d) := by
  have hraise := raise_of_scaled (b := 10) (by decide) hlarge
    (m := (-(d.exponent + scale)).toNat)
  rw [← coefficient_of_units hvalue hexponent] at hraise
  have hshift : 1 ≤ (inContext d).exponent + scale := by
    show 1 ≤ d.exponent + ((roundDigits 10 contextPrecision d.coefficient).2 : Int) + scale
    omega
  rw [unitsOf_of_nonneg (by omega)]
  obtain ⟨j, hj⟩ : ∃ j, ((inContext d).exponent + scale).toNat = j + 1 :=
    ⟨((inContext d).exponent + scale).toNat - 1, by omega⟩
  rw [hj, Int.pow_succ, ← Int.mul_assoc]
  exact Int.dvd_mul_left _ _

/-! ## Neighbours -/

variable {scale : Nat} {d : DecimalNumber} {k : Int}

theorem quantum_value (scale : Nat) (negative : Bool) :
    DecimalNumber.value ⟨negative, 1, -(scale : Int)⟩ =
    (if negative then -1 else 1) / 10 ^ scale := by
  rw [DecimalNumber.value, zpow_neg, zpow_natCast, div_eq_mul_inv]
  push_cast
  rw [mul_one]

theorem neighbour_value (hd : d.value = k / 10 ^ scale) (negative : Bool) :
    (exactSum d ⟨negative, 1, -(scale : Int)⟩).value =
        ((k + if negative then -1 else 1 : Int) : ℚ) / 10 ^ scale ∧
      (exactSum d ⟨negative, 1, -(scale : Int)⟩).exponent ≤ -(scale : Int) := by
  constructor
  · rw [exactSum_value, hd, quantum_value, ← add_div]
    cases negative with
    | true => push_cast; rfl
    | false => push_cast; rfl
  · exact min_le_right _ _

theorem Shows.unique {text : String} {u u' : Int} (h : Shows scale text u)
    (h' : Shows scale text u') :
    u = u' := by
  obtain ⟨n, htext, -, -, hvalue⟩ := h
  obtain ⟨n', htext', -, -, hvalue'⟩ := h'
  have hequal : n.value = n'.value :=
    Option.some.inj ((numericValue_text htext).symm.trans (numericValue_text htext'))
  rw [hvalue, hvalue'] at hequal
  have hpower : (10 : ℚ) ^ scale ≠ 0 := pow_ne_zero _ (by norm_num)
  exact_mod_cast (div_left_inj' hpower).mp hequal

theorem shows_toString (i : Int) : Shows 0 (toString i) i := by
  obtain ⟨n, htext, ⟨hfraction, hexponent⟩, hvalue⟩ := toString_isLiteral i
  refine ⟨n, htext, hexponent, ?_, ?_⟩
  · rw [hfraction]
    rfl
  · rw [hvalue, pow_zero, div_one]

/-- Three texts are usable exactly when they show the threshold between its two neighbours, and
these lie in the type. -/
theorem usable_three_iff {type : NumericType} {below at_ above : String} {u u' : Int}
    (hk : type.least ≤ k ∧ k ≤ type.greatest) (hbelow : Shows type.scale below u)
    (hat : Shows type.scale at_ k) (habove : Shows type.scale above u') :
    Usable type k [below, at_, above] ↔
      (u = k - 1 ∧ u' = k + 1) ∧ type.least < k ∧ k < type.greatest := by
  constructor
  · rintro ⟨units, hshows, hrange, hsorted, -, hnear, -⟩
    cases hshows with
    | cons h hshows =>
      cases hshows with
      | cons h' hshows =>
        cases hshows with
        | cons h'' hshows =>
          cases hshows with
          | nil =>
            obtain rfl := h.unique hbelow
            obtain rfl := h'.unique hat
            obtain rfl := h''.unique habove
            simp only [List.pairwise_cons, List.mem_cons, List.not_mem_nil, or_false,
              forall_eq_or_imp, forall_eq] at hsorted hnear hrange
            omega
  · rintro ⟨⟨rfl, rfl⟩, hleast, hgreatest⟩
    refine ⟨[k - 1, k, k + 1], .cons hbelow (.cons hat (.cons habove .nil)), ?_, ?_, ?_, ?_, ?_⟩
    · simp only [List.mem_cons, List.not_mem_nil, or_false, forall_eq_or_imp, forall_eq]
      omega
    · simp only [List.pairwise_cons, List.mem_cons, List.not_mem_nil, or_false, forall_eq_or_imp,
        forall_eq, List.Pairwise.nil, and_true, IsEmpty.forall_iff, implies_true]
      omega
    · simp
    · simp only [List.mem_cons, List.not_mem_nil, or_false, forall_eq_or_imp, forall_eq]
      omega
    · intro v hv _
      simp only [List.mem_cons, List.not_mem_nil, or_false]
      omega

/-! ## Reading a threshold -/

theorem groupedDigits_chars {digits : List Char} (h : groupedDigits digits = true) :
    ∀ c ∈ digits, c.isDigit = true ∨ c = '_' := by
  fun_induction groupedDigits digits with
  | case1 => exact nofun
  | case2 c =>
    intro x hx
    rw [List.mem_singleton.mp hx]
    exact .inl h
  | case3 c cs ih =>
    rw [Bool.and_eq_true] at h
    intro x hx
    rcases List.mem_cons.mp hx with rfl | hx
    · exact .inl h.1
    · rcases List.mem_cons.mp hx with rfl | hx
      · exact .inr rfl
      · exact ih h.2 x hx
  | case4 c cs _ _ ih =>
    rw [Bool.and_eq_true] at h
    intro x hx
    rcases List.mem_cons.mp hx with rfl | hx
    · exact .inl h.1
    · exact ih h.2 x hx

theorem groupedDigits_digits {digits : List Char} (hne : digits ≠ [])
    (h : ∀ c ∈ digits, c.isDigit = true) : groupedDigits digits = true := by
  fun_induction groupedDigits digits with
  | case1 => exact absurd rfl hne
  | case2 c => exact h c List.mem_cons_self
  | case3 c cs _ => exact absurd (h '_' (by simp)) (by decide)
  | case4 c cs hcs _ ih =>
    have hc := h c List.mem_cons_self
    have hrest := ih (fun hnil => hcs hnil) fun x hx => h x (List.mem_cons_of_mem _ hx)
    rw [hc, hrest]
    rfl

theorem intOf_text (n : NumericLiteral) :
    intOf (String.ofList n.text) = if n.Integer then some (signedValue n.sign n.int) else none := by
  simp only [intOf, String.toList_ofList, n.strip_text, n.takeSign_literal]
  by_cases hint : n.Integer
  · have htail : n.tailText = [] := n.tailText_eq_nil.mpr hint
    have hne : n.int ≠ [] := by
      have hnonempty := n.nonempty
      rw [hint.1] at hnonempty
      exact hnonempty.resolve_right fun h => h rfl
    have hclean : '_' ∉ n.int := fun hmem => absurd (n.int_digits _ hmem) (by decide)
    rw [if_pos hint, htail, List.append_nil, if_pos (groupedDigits_digits hne n.int_digits),
      filter_clean hclean]
    rfl
  · rw [if_neg hint, if_neg]
    intro hgrouped
    have htail : n.tailText ≠ [] := fun h => hint (n.tailText_eq_nil.mp h)
    obtain ⟨c, cs, hcs⟩ := List.exists_cons_of_ne_nil htail
    -- the point or the exponent is no digit
    have hmem : c ∈ n.int ++ n.tailText := by simp [hcs]
    have hdigit := n.tailText_head c (by rw [hcs]; rfl)
    have hclean := (n.clean c (List.mem_append_right _ hmem)).2
    rcases groupedDigits_chars hgrouped c hmem with h | h
    · rw [hdigit] at h
      cases h
    · exact hclean h

/-! ## When boundary values are usable -/

/-- The integer families. -/
def isIntegerFamily : SqlTypeFamily → Bool
  | .smallInteger | .integer | .bigInteger => true
  | _ => false

theorem select_ok {α : Type} {operator : String} (h : operator ∈ comparisonOperators)
    (below at_ above : α) : select operator below at_ above = .ok [below, at_, above] := if_pos h

/-- A generator that gave usable values. -/
def GivesUsable (sqlType : CanonicalSqlType) (type : NumericType)
    (operator threshold : String) (k : Int) :
    Prop :=
  ∃ texts, around sqlType operator threshold = .ok texts ∧ Usable type k texts

variable {sqlType : CanonicalSqlType} {type : NumericType} {operator : String} {n : NumericLiteral}

theorem around_integer (hfamily : isIntegerFamily sqlType.family = true)
    (hoperator : operator ∈ comparisonOperators) (n : NumericLiteral) :
    around sqlType operator (String.ofList n.text) =
      if n.Integer
      then .ok [toString (signedValue n.sign n.int - 1), toString (signedValue n.sign n.int),
        toString (signedValue n.sign n.int + 1)]
      else .error (.invalidInteger (String.ofList n.text)) := by
  have hread : aroundInteger operator (String.ofList n.text) =
      if n.Integer
      then .ok [toString (signedValue n.sign n.int - 1), toString (signedValue n.sign n.int),
        toString (signedValue n.sign n.int + 1)]
      else .error (.invalidInteger (String.ofList n.text)) := by
    rw [aroundInteger, intOf_text]
    by_cases hint : n.Integer
    · rw [if_pos hint, if_pos hint]
      simp only
      rw [select_ok hoperator]
      rfl
    · rw [if_neg hint, if_neg hint]
  unfold around
  cases hf : sqlType.family with
  | smallInteger => exact hread
  | integer => exact hread
  | bigInteger => exact hread
  | _ =>
    rw [hf] at hfamily
    cases hfamily

theorem integer_usable_iff (hfamily : isIntegerFamily sqlType.family = true)
    (hscale : type.scale = 0)
    (hoperator : operator ∈ comparisonOperators) (hk : n.value = k / 10 ^ type.scale)
    (hrange : type.least ≤ k ∧ k ≤ type.greatest) :
    GivesUsable sqlType type operator (String.ofList n.text) k ↔
      n.Integer ∧ type.least < k ∧ k < type.greatest := by
  rw [GivesUsable, around_integer hfamily hoperator]
  by_cases hint : n.Integer
  · have hvalue : signedValue n.sign n.int = k := by
      rw [n.value_integer hint, hscale, pow_zero, div_one] at hk
      exact_mod_cast hk
    rw [if_pos hint, hvalue]
    have hthree := @usable_three_iff k type _ _ _ _ _ hrange (hscale ▸ shows_toString (k - 1))
      (hscale ▸ shows_toString k) (hscale ▸ shows_toString (k + 1))
    constructor
    · rintro ⟨texts, htexts, husable⟩
      obtain rfl := Except.ok.inj htexts
      exact ⟨hint, (hthree.mp husable).2⟩
    · rintro ⟨-, hends⟩
      exact ⟨_, rfl, hthree.mpr ⟨⟨rfl, rfl⟩, hends⟩⟩
  · rw [if_neg hint]
    refine iff_of_false ?_ fun h => hint h.1
    rintro ⟨texts, htexts, -⟩
    cases htexts

theorem around_decimal (hfamily : sqlType.family = .decimal)
    (hoperator : operator ∈ comparisonOperators) (n : NumericLiteral) :
    around sqlType operator (String.ofList n.text) =
      .ok [formatFixed (sqlType.scale.getD 0)
        (inContext (exactSum n.number ⟨true, 1, -(sqlType.scale.getD 0 : Nat)⟩)),
        formatFixed (sqlType.scale.getD 0) n.number,
        formatFixed (sqlType.scale.getD 0)
        (inContext (exactSum n.number ⟨false, 1, -(sqlType.scale.getD 0 : Nat)⟩))] := by
  unfold around
  rw [hfamily]
  simp only
  rw [aroundDecimal, parseDecimal_text]
  simp only
  rw [select_ok hoperator]
  rfl

/-- When a decimal literal gives usable boundaries. -/
theorem decimal_usable_iff (hfamily : sqlType.family = .decimal)
    (hscale : type.scale = sqlType.scale.getD 0) (hoperator : operator ∈ comparisonOperators)
    (hk : n.value = k / 10 ^ type.scale) (hrange : type.least ≤ k ∧ k ≤ type.greatest) :
    GivesUsable sqlType type operator (String.ofList n.text) k ↔
      k.natAbs < 10 ^ contextPrecision ∧ type.least < k ∧ k < type.greatest := by
  have hd : n.number.value = k / 10 ^ type.scale := by rw [n.number_value, hk]
  have hthree := @usable_three_iff k type _ _ _ _ _ hrange
    (shows_formatFixed type.scale (inContext (exactSum n.number ⟨true, 1, -(type.scale : Int)⟩)))
    (unitsOf_value hd ▸ shows_formatFixed type.scale n.number)
    (shows_formatFixed type.scale (inContext (exactSum n.number ⟨false, 1, -(type.scale : Int)⟩)))
  obtain ⟨hbelow, hbelowExponent⟩ := neighbour_value hd true
  obtain ⟨habove, haboveExponent⟩ := neighbour_value hd false
  rw [if_pos rfl] at hbelow
  rw [if_neg (by decide)] at habove
  rw [GivesUsable, around_decimal hfamily hoperator, ← hscale]
  constructor
  · rintro ⟨texts, htexts, husable⟩
    obtain rfl := Except.ok.inj htexts
    obtain ⟨⟨hdown, hup⟩, hends⟩ := hthree.mp husable
    refine ⟨?_, hends⟩
    by_contra hlarge
    -- one neighbour has more digits than the context keeps, so its last digit is lost
    by_cases hsign : 0 ≤ k
    · have hten := ten_dvd_unitsOf_inContext habove haboveExponent (by omega)
      rw [hup] at hten
      have hten' := ten_dvd_unitsOf_inContext hbelow hbelowExponent (by
        rw [contextPrecision] at hlarge ⊢
        omega)
      rw [hdown] at hten'
      omega
    · have hten := ten_dvd_unitsOf_inContext hbelow hbelowExponent (by omega)
      rw [hdown] at hten
      have hten' := ten_dvd_unitsOf_inContext habove haboveExponent (by
        rw [contextPrecision] at hlarge ⊢
        omega)
      rw [hup] at hten'
      omega
  · rintro ⟨hsmall, hends⟩
    refine ⟨_, rfl, hthree.mpr ⟨⟨?_, ?_⟩, hends⟩⟩
    · rw [unitsOf_inContext hbelow hbelowExponent (by omega)]
      rfl
    · exact unitsOf_inContext habove haboveExponent (by omega)

/-- The condition under which boundary values are usable. -/
def HasNeighbours (sqlType : CanonicalSqlType) (type : NumericType) (n : NumericLiteral) (k : Int) :
    Prop :=
  (type.least < k ∧ k < type.greatest) ∧
    if sqlType.family = .decimal then k.natAbs < 10 ^ contextPrecision else n.Integer

/-- Around a threshold of a numeric type the values are usable exactly when both neighbours lie in
the type and can be computed: an integer threshold is written as one, and a decimal has at most 28
digits. -/
theorem boundary_usable_iff (sqlType : CanonicalSqlType) (type : NumericType)
    (htype : numericType sqlType = some type) (operator : String)
    (hoperator : operator ∈ comparisonOperators) (n : NumericLiteral) (k : Int)
    (hk : n.value = k / 10 ^ type.scale) (hrange : type.least ≤ k ∧ k ≤ type.greatest) :
    GivesUsable sqlType type operator (String.ofList n.text) k ↔
    HasNeighbours sqlType type n k := by
  have hinteger (hfamily : isIntegerFamily sqlType.family = true) (hscale : type.scale = 0) :
      GivesUsable sqlType type operator (String.ofList n.text) k ↔
      HasNeighbours sqlType type n k := by
    have hnot : sqlType.family ≠ .decimal := by
      intro h
      rw [h] at hfamily
      cases hfamily
    rw [integer_usable_iff hfamily hscale hoperator hk hrange, HasNeighbours, if_neg hnot, and_comm]
  unfold numericType at htype
  split at htype
  · next _ hfamily =>
      obtain rfl := Option.some.inj htype
      exact hinteger (by rw [hfamily]; rfl) rfl
  · next _ hfamily =>
      obtain rfl := Option.some.inj htype
      exact hinteger (by rw [hfamily]; rfl) rfl
  · next _ hfamily =>
      obtain rfl := Option.some.inj htype
      exact hinteger (by rw [hfamily]; rfl) rfl
  · next hfamily _ =>
      split at htype
      · obtain rfl := Option.some.inj htype
        rw [decimal_usable_iff hfamily rfl hoperator hk hrange, HasNeighbours,
          if_pos hfamily, and_comm]
      · cases htype
  · cases htype

/-! ## Ends of a type and of the context -/

def smallInt : CanonicalSqlType := { family := .smallInteger }

def decimal31 : CanonicalSqlType := { family := .decimal, precision := some 31, scale := some 0 }

-- above the greatest SMALLINT stands a value that is none
example : around smallInt ">" "32767" = .ok ["32766", "32767", "32768"] := by
  decide +kernel

-- a DECIMAL(31,0) of 29 digits has neighbours that are rounded
example : around decimal31 ">" "12345678901234567890123456781" =
    .ok ["12345678901234567890123456780", "12345678901234567890123456781",
      "12345678901234567890123456780"] := by
  decide +kernel

/-- Neither the greatest SMALLINT nor a DECIMAL(31,0) of 29 digits has usable boundary values. -/
theorem neighbours_outside :
    (∃ n : NumericLiteral, n.text = (toString (32767 : Int)).toList ∧
      n.value = (32767 : Int) / 10 ^ 0 ∧
      ¬ GivesUsable smallInt ⟨0, -2 ^ 15, 2 ^ 15 - 1⟩ ">" (String.ofList n.text) 32767) ∧
    ∃ n : NumericLiteral, n.text = (toString (12345678901234567890123456781 : Int)).toList ∧
      n.value = (12345678901234567890123456781 : Int) / 10 ^ 0 ∧
      ¬ GivesUsable decimal31 (decimalType 31 0) ">" (String.ofList n.text)
        12345678901234567890123456781 := by
  have hoperator : ">" ∈ comparisonOperators := by decide
  constructor
  · obtain ⟨n, htext, -, hvalue⟩ := toString_isLiteral 32767
    have hunits : n.value = (32767 : Int) / 10 ^ 0 := by rw [hvalue, pow_zero, div_one]
    refine ⟨n, htext, hunits, fun husable => ?_⟩
    have hends := (integer_usable_iff rfl rfl hoperator hunits (by decide)).mp husable
    exact absurd hends.2.2 (by decide)
  · obtain ⟨n, htext, -, hvalue⟩ := toString_isLiteral 12345678901234567890123456781
    have hunits : n.value = (12345678901234567890123456781 : Int) / 10 ^ 0 := by
      rw [hvalue, pow_zero, div_one]
    refine ⟨n, htext, hunits, fun husable => ?_⟩
    have hdigits := (decimal_usable_iff rfl rfl hoperator hunits (by decide)).mp husable
    exact absurd hdigits.1 (by decide)

/-- `950` in an INTEGER column has both neighbours. -/
theorem boundary_usable_iff_950 :
    ∃ n : NumericLiteral, n.text = (toString (950 : Int)).toList ∧
      GivesUsable { family := .integer } ⟨0, -2 ^ 31, 2 ^ 31 - 1⟩ ">="
      (String.ofList n.text) 950 := by
  obtain ⟨n, htext, hint, hvalue⟩ := toString_isLiteral 950
  refine ⟨n, htext, (boundary_usable_iff { family := .integer } ⟨0, -2 ^ 31, 2 ^ 31 - 1⟩ rfl ">="
    (by decide) n 950 ?_ (by decide)).mpr ⟨by decide, ?_⟩⟩
  · rw [hvalue, pow_zero, div_one]
  · rw [if_neg (by decide)]
    exact hint

end AtlasDb.Fixtures
