import AtlasDb.Analysis.Modalities
import Mathlib.Algebra.Field.Rat
import Mathlib.Data.String.Basic

/-!
# Runtime verification plans

`runtime/plan.py: RuntimeVerificationPlanner`, by the observations a plan expects. Texts of numbers
are read and printed as `decimal.Decimal` does; digits are those of ASCII.
-/

namespace AtlasDb.Runtime

open Core Analysis

/-! ## Decimal numbers -/

/-- A finite `Decimal`: sign, coefficient and exponent. -/
structure DecimalNumber where
  negative : Bool
  coefficient : Nat
  exponent : Int
deriving DecidableEq, Repr

inductive Decimal
  | finite (number : DecimalNumber)
  /-- infinities and NaNs, by the text `str` gives -/
  | special (text : String)
deriving DecidableEq, Repr

def digitsValue (digits : List Char) : Nat :=
  digits.foldl (fun n c => 10 * n + (c.toNat - '0'.toNat)) 0

/-- The sign of a number and the text after it. -/
def takeSign : List Char → Bool × List Char
  | '-' :: cs => (true, cs)
  | '+' :: cs => (false, cs)
  | cs => (false, cs)

/-- An exponent `E[-+]?\d+` up to the end, or none. -/
def takeExponent : List Char → Option Int
  | [] => some 0
  | c :: cs =>
    if c = 'E' ∨ c = 'e' then
      let (negative, digits) := takeSign cs
      if digits = [] ∨ !digits.all Char.isDigit then none
      else some (if negative then -(digitsValue digits : Int) else digitsValue digits)
    else none

/-- `Inf`, `Infinity`, `NaN` and `sNaN`, after the sign. -/
def specialText (text : List Char) : Option String :=
  let upper := Text.upper text
  let nan := fun (name : String) (digits : List Char) =>
    if digits.all Char.isDigit then
      some (name ++ String.ofList (digits.dropWhile (· = '0')))
    else none
  if upper = "INF".toList ∨ upper = "INFINITY".toList then some "Infinity"
  else if upper.take 3 = "NAN".toList then nan "NaN" (upper.drop 3)
  else if upper.take 4 = "SNAN".toList then nan "sNaN" (upper.drop 4)
  else none

/-- The constructor `Decimal(text)`. -/
def parseDecimal (text : String) : Option Decimal :=
  let (negative, rest) := takeSign ((Text.strip text.toList).filter (· ≠ '_'))
  let int := rest.takeWhile Char.isDigit
  let afterInt := rest.dropWhile Char.isDigit
  let (fraction, afterFraction) := match afterInt with
    | '.' :: cs => (cs.takeWhile Char.isDigit, cs.dropWhile Char.isDigit)
    | cs => ([], cs)
  if int = [] ∧ fraction = [] then
    (specialText rest).map fun t => .special (if negative then "-" ++ t else t)
  else
    (takeExponent afterFraction).map fun exponent =>
      .finite ⟨negative, digitsValue (int ++ fraction), exponent - fraction.length⟩

/-- `f"{n:+d}"` -/
def signedText (n : Int) : String := if n < 0 then toString n else "+" ++ toString n

/-- `str(decimal)`. -/
def DecimalNumber.text (d : DecimalNumber) : String :=
  let digits := Nat.toDigits 10 d.coefficient
  let left : Int := d.exponent + digits.length
  let dot : Int := if d.exponent ≤ 0 ∧ -6 < left then left else 1
  let body :=
    if dot ≤ 0 then ['0', '.'] ++ List.replicate (-dot).toNat '0' ++ digits
    else if digits.length ≤ dot then digits ++ List.replicate (dot.toNat - digits.length) '0'
    else digits.take dot.toNat ++ ['.'] ++ digits.drop dot.toNat
  (if d.negative then "-" else "") ++ String.ofList body ++
    (if left = dot then "" else "E" ++ signedText (left - dot))

def Decimal.text : Decimal → String
  | .finite number => number.text
  | .special text => text

/-- The number a text stands for. -/
def numericValue (text : String) : Option ℚ :=
  match parseDecimal text with
  | some (.finite d) =>
    some ((if d.negative then -1 else 1) * d.coefficient * (10 : ℚ) ^ d.exponent)
  | _ => none

/-! ## Values -/

inductive RuntimeValueKind
  | string | integer | decimal | boolean | date | timestamp | raw
deriving DecidableEq, Repr

/-- A value; only NULL has no canonical text. -/
inductive RuntimeValue
  | null
  | of (kind : RuntimeValueKind) (canonicalValue : String)
deriving DecidableEq, Repr

def RuntimeValue.canonicalValue : RuntimeValue → Option String
  | .null => none
  | .of _ text => some text

/-- `text.replace("''", "'")` -/
def undoubled : List Char → List Char
  | '\'' :: '\'' :: cs => '\'' :: undoubled cs
  | c :: cs => c :: undoubled cs
  | [] => []

/-- `[-+]?\d+` -/
def isInteger (text : List Char) : Bool :=
  let digits := (takeSign text).2
  digits ≠ [] && digits.all Char.isDigit

/-- `str(int(text))` -/
def integerText (text : List Char) : String :=
  let (negative, digits) := takeSign text
  let n := digitsValue digits
  toString (if negative then -(n : Int) else (n : Int))

/-- `_literal_value`. -/
def literalValue (expression : Option String) : Option RuntimeValue :=
  match expression with
  | none => none
  | some expression =>
    let text := Text.strip expression.toList
    if Text.upper text = "NULL".toList then some .null
    else if 2 ≤ text.length ∧ text.head? = some '\'' ∧ text.getLast? = some '\'' then
      some (.of .string (String.ofList (undoubled text.tail.dropLast)))
    else if isInteger text then some (.of .integer (integerText text))
    else (parseDecimal (String.ofList text)).map fun d => .of .decimal d.text

/-! ## Expectations -/

inductive RuntimeObservationKind
  | outParameter | dmlEffect | callEffect | sqlstate | resultSet | effectReference
deriving DecidableEq, Repr

def RuntimeObservationKind.value : RuntimeObservationKind → String
  | .outParameter => "OUT_PARAMETER"
  | .dmlEffect => "DML_EFFECT"
  | .callEffect => "CALL_EFFECT"
  | .sqlstate => "SQLSTATE"
  | .resultSet => "RESULT_SET"
  | .effectReference => "EFFECT_REFERENCE"

/-- An expectation. Its id is a digest of these fields, so it is not kept apart. -/
structure RuntimeExpectedObservation where
  scenarioEffectRef : String
  modality : EffectModality
  observationKind : RuntimeObservationKind
  target : Option String
  expectedValue : Option RuntimeValue
deriving DecidableEq

structure ScenarioEffect where
  effectRef : String
  modality : EffectModality
deriving DecidableEq

/-- The effects of a scenario, expected ones first. -/
structure ScenarioEffects where
  expectedEffects : List ScenarioEffect
  alternativeOrConditionalEffects : List ScenarioEffect
deriving DecidableEq

/-- `_kind`. -/
def observationKind (kind : EffectKind) : RuntimeObservationKind :=
  match kind with
  | .outParameterAssignment => .outParameter
  | .dml | .dynamicSql => .dmlEffect
  | .call => .callEffect
  | .signal | .resignal => .sqlstate
  | _ => .effectReference

/-- The observation expected of an effect. -/
def expectation (scenarioEffect : ScenarioEffect) (effect : EffectCandidate) :
    RuntimeExpectedObservation where
  scenarioEffectRef := scenarioEffect.effectRef
  modality := scenarioEffect.modality
  observationKind := observationKind effect.effectKind
  target := effect.effectId.target
  expectedValue :=
    if observationKind effect.effectKind = .outParameter then
      literalValue effect.effectId.valueExpression
    else none

/-- `_expectations`, in the order of the scenario: the source sorts them by their digests. -/
def expectations (spec : ScenarioEffects) (effects : List (String × EffectCandidate)) :
    List RuntimeExpectedObservation :=
  (spec.expectedEffects ++ spec.alternativeOrConditionalEffects).filterMap fun scenarioEffect =>
    (effects.lookup scenarioEffect.effectRef).map (expectation scenarioEffect)

theorem mem_expectations {spec : ScenarioEffects} {effects : List (String × EffectCandidate)}
    {e : RuntimeExpectedObservation} (h : e ∈ expectations spec effects) :
    ∃ scenarioEffect effect, effects.lookup scenarioEffect.effectRef = some effect ∧
      e = expectation scenarioEffect effect := by
  obtain ⟨scenarioEffect, -, hmap⟩ := List.mem_filterMap.mp h
  obtain ⟨effect, hlookup, rfl⟩ := Option.map_eq_some_iff.mp hmap
  exact ⟨scenarioEffect, effect, hlookup, rfl⟩

end AtlasDb.Runtime
