import AtlasDb.Analysis.TenantIsolation
import AtlasDb.Lib.Kleene
import Mathlib.Logic.Relation

/-!
# Tenant bindings and rows

What a statement reads or changes: the combinations of rows of its range variables for which its
condition, the `WHERE` and the inner `ON` clauses together, is true. How SQL reads the text is a
`TenantReading`: the range variables, what a name denotes and the condition, whose comparisons of
two names are given by the equals sign between them; every other predicate may come out any way. An
equals sign that is no such comparison, as in a `SET` list or next to an expression, is not in the
condition.

A reported binding isolates the rows exactly when each alternative of the condition, with its `AND`,
`OR` and `NOT` spread out, has by itself the comparisons that chain the tenant column of every range
variable to an accepted parameter, or asks for what cannot be.
-/

namespace AtlasDb.Semantics

open Core Lib Parsing Analysis

/-! ## Statements -/

/-- What a name denotes. -/
inductive Operand where
  | column (range : String) (name : String)
  | parameter (name : String)
deriving DecidableEq

inductive RowCondition where
  /-- The comparison of the names around the equals sign at the position. -/
  | equal (index : Nat)
  | other (index : Nat)
  | and (a b : RowCondition)
  | or (a b : RowCondition)
  | not (a : RowCondition)

/-- A statement as SQL reads it. `ranges` are the range variables over the relation. -/
structure TenantReading where
  ranges : List String
  denote : String → Operand
  condition : RowCondition

/-- The accepted parameters; with none, every parameter. -/
def Accepted (rule : TenantIsolationRule) (parameter : String) : Prop :=
  rule.acceptedParameterNames = [] ∨
    parameter ∈ rule.acceptedParameterNames.map Text.upperString

/-- A comparison or another predicate that is to be true, or to be false. -/
structure RowLiteral where
  comparison : Bool
  index : Nat
  negated : Bool
deriving DecidableEq

namespace RowCondition

/-- The truth of a condition from that of its comparisons and its other predicates. -/
def truth (equal other : Nat → Truth) : RowCondition → Truth
  | .equal index => equal index
  | .other index => other index
  | .and a b => (truth equal other a).and (truth equal other b)
  | .or a b => (truth equal other a).or (truth equal other b)
  | .not a => (truth equal other a).not

/-- Both sides of a conjunction are asked for together. -/
def together (left right : List (List RowLiteral)) : List (List RowLiteral) :=
  left.flatMap fun a => right.map (a ++ ·)

/-- The alternatives of the condition, or of its negation: what is asked for between two `OR`s. -/
def alternatives : RowCondition → Bool → List (List RowLiteral)
  | .equal index, negated => [[⟨true, index, negated⟩]]
  | .other index, negated => [[⟨false, index, negated⟩]]
  | .and a b, false => together (alternatives a false) (alternatives b false)
  | .and a b, true => alternatives a true ++ alternatives b true
  | .or a b, false => alternatives a false ++ alternatives b false
  | .or a b, true => together (alternatives a true) (alternatives b true)
  | .not a, negated => alternatives a (!negated)

end RowCondition

/-- The predicate comes out as it should. -/
def RowLiteral.Holds (equal other : Nat → Truth) (l : RowLiteral) : Prop :=
  (if l.comparison then equal l.index else other l.index) = Truth.ofBool (!l.negated)

/-! ## Rows -/

/-- Whether two values are equal, NULL being equal to nothing. -/
def equalValues {V : Type} [DecidableEq V] : Option V → Option V → Truth
  | some a, some b => Truth.ofBool (a = b)
  | _, _ => .unknown

namespace TenantReading

variable (R : TenantReading) (tokens : List Token)

/-- The truth of the comparison at a position, for a row of each range variable. -/
def compare {V : Type} [DecidableEq V] (value : Operand → Option V) (index : Nat) : Truth :=
  match sides tokens index with
  | some (left, right) => equalValues (value (R.denote left)) (value (R.denote right))
  | none => .unknown

/-- Whatever is read or changed has its tenant column equal to an accepted parameter. -/
def Isolates (rule : TenantIsolationRule) : Prop :=
  ∀ (V : Type) [DecidableEq V] (value : Operand → Option V) (other : Nat → Truth),
    R.condition.truth (R.compare tokens value) other = .true →
    ∀ range ∈ R.ranges, ∃ parameter, Accepted rule parameter ∧
      value (.column range (Text.upperString rule.tenantColumn)) = value (.parameter parameter) ∧
      value (.parameter parameter) ≠ none

/-! ## Chains of comparisons -/

variable (alternative : List RowLiteral)

/-- A comparison the alternative asks for. -/
def Joined (x y : Operand) : Prop :=
  ∃ index left right, ⟨true, index, false⟩ ∈ alternative ∧ sides tokens index = some (left, right) ∧
    x = R.denote left ∧ y = R.denote right

/-- A chain of comparisons that are asked for, in either direction. -/
def Chained : Operand → Operand → Prop := Relation.EqvGen (R.Joined tokens alternative)

/-- The alternative asks for what cannot be: a predicate that is true and false, two names to differ
that its comparisons chain, or a comparison of what are no two names. -/
inductive Impossible : Prop
  | predicate {index : Nat} (htrue : ⟨false, index, false⟩ ∈ alternative)
      (hfalse : ⟨false, index, true⟩ ∈ alternative)
  | differ {index : Nat} {left right : String} (hfalse : ⟨true, index, true⟩ ∈ alternative)
      (hsides : sides tokens index = some (left, right))
      (hchained : R.Chained tokens alternative (R.denote left) (R.denote right))
  | spelled {index : Nat} {negated : Bool} (h : ⟨true, index, negated⟩ ∈ alternative)
      (hsides : sides tokens index = none)

/-- Each alternative has the comparisons that chain the tenant column of every range variable to an
accepted parameter, or is impossible. -/
def EveryAlternativeChains (rule : TenantIsolationRule) : Prop :=
  ∀ alternative ∈ R.condition.alternatives false, R.Impossible tokens alternative ∨
    ∀ range ∈ R.ranges, ∃ parameter, Accepted rule parameter ∧
      R.Chained tokens alternative (.column range (Text.upperString rule.tenantColumn))
        (.parameter parameter)

end TenantReading

/-! ## Alternatives -/

section Alternatives

variable {equal other : Nat → Truth}

theorem exists_together {left right : List (List RowLiteral)} {p : RowLiteral → Prop} :
    (∃ a ∈ RowCondition.together left right, ∀ l ∈ a, p l) ↔
      (∃ a ∈ left, ∀ l ∈ a, p l) ∧ ∃ a ∈ right, ∀ l ∈ a, p l := by
  constructor
  · rintro ⟨c, hc, hall⟩
    obtain ⟨a, ha, hc⟩ := List.mem_flatMap.mp hc
    obtain ⟨b, hb, rfl⟩ := List.mem_map.mp hc
    obtain ⟨hleft, hright⟩ := List.forall_mem_append.mp hall
    exact ⟨⟨a, ha, hleft⟩, b, hb, hright⟩
  · rintro ⟨⟨a, ha, hleft⟩, b, hb, hright⟩
    exact ⟨a ++ b, List.mem_flatMap.mpr ⟨a, ha, List.mem_map_of_mem hb⟩,
      List.forall_mem_append.mpr ⟨hleft, hright⟩⟩

/-- **The alternatives are the condition**: it is true, or false, exactly when all predicates of
some alternative come out as they should. -/
theorem truth_iff_alternatives (c : RowCondition) (negated : Bool) :
    c.truth equal other = Truth.ofBool (!negated) ↔
      ∃ a ∈ c.alternatives negated, ∀ l ∈ a, l.Holds equal other := by
  induction c generalizing negated with
  | equal index => simp [RowCondition.truth, RowCondition.alternatives, RowLiteral.Holds]
  | other index => simp [RowCondition.truth, RowCondition.alternatives, RowLiteral.Holds]
  | and a b iha ihb =>
    cases negated with
    | false =>
      rw [RowCondition.alternatives, exists_together, ← iha, ← ihb]
      exact Truth.and_eq_true
    | true =>
      simp only [RowCondition.alternatives, List.mem_append, or_and_right, exists_or, ← iha, ← ihb]
      exact Truth.and_eq_false
  | or a b iha ihb =>
    cases negated with
    | false =>
      simp only [RowCondition.alternatives, List.mem_append, or_and_right, exists_or, ← iha, ← ihb]
      exact Truth.or_eq_true
    | true =>
      rw [RowCondition.alternatives, exists_together, ← iha, ← ihb]
      exact Truth.or_eq_false
  | not a ih =>
    rw [RowCondition.alternatives, ← ih]
    cases negated with
    | false => exact Truth.not_eq_true
    | true => exact Truth.not_eq_false

end Alternatives

/-! ## Rows that meet an alternative -/

section Rows

variable {R : TenantReading} {tokens : List Token} {rule : TenantIsolationRule} {V : Type}
  [DecidableEq V] {value : Operand → Option V} {other : Nat → Truth} {alternative : List RowLiteral}

theorem equalValues_true {a b : Option V} (h : equalValues a b = .true) : a = b ∧ b ≠ none := by
  cases a with
  | none => cases h
  | some a =>
    cases b with
    | none => cases h
    | some b =>
      by_cases hab : a = b
      · simp [hab]
      · simp [equalValues, hab, Truth.ofBool] at h

theorem equalValues_false {a b : Option V} (h : equalValues a b = .false) : a ≠ b := by
  rintro rfl
  cases a with
  | none => cases h
  | some a => simp [equalValues, Truth.ofBool] at h

/-- What rows that meet the alternative have in a comparison it asks for. -/
theorem value_of_joined (hmet : ∀ l ∈ alternative, l.Holds (R.compare tokens value) other)
    {x y : Operand} (h : R.Joined tokens alternative x y) : value x = value y ∧ value y ≠ none := by
  obtain ⟨index, left, right, hmem, hsides, rfl, rfl⟩ := h
  have htrue : R.compare tokens value index = .true := hmet _ hmem
  rw [TenantReading.compare, hsides] at htrue
  exact equalValues_true htrue

/-- Operands in one chain have one value, which is not NULL if there are two of them. -/
theorem value_of_chained (hmet : ∀ l ∈ alternative, l.Holds (R.compare tokens value) other)
    {x y : Operand} (h : R.Chained tokens alternative x y) :
    value x = value y ∧ (x = y ∨ value y ≠ none) := by
  induction h with
  | rel x y hjoined => exact (value_of_joined hmet hjoined).imp id .inr
  | refl x => exact ⟨rfl, .inl rfl⟩
  | symm x y _ ih => exact ⟨ih.1.symm, ih.2.imp Eq.symm (ih.1 ▸ ·)⟩
  | trans x y z _ _ hxy hyz =>
    refine ⟨hxy.1.trans hyz.1, ?_⟩
    rcases hyz.2 with rfl | hz
    · exact hxy.2
    · exact .inr hz

theorem not_impossible_of_met (hmet : ∀ l ∈ alternative, l.Holds (R.compare tokens value) other) :
    ¬ R.Impossible tokens alternative := by
  intro h
  cases h with
  | @predicate index htrue hfalse =>
    have hboth : Truth.true = Truth.false := (hmet _ htrue).symm.trans (hmet _ hfalse)
    cases hboth
  | @differ index left right hfalse hsides hchained =>
    have hcompare : R.compare tokens value index = .false := hmet _ hfalse
    rw [TenantReading.compare, hsides] at hcompare
    exact equalValues_false hcompare (value_of_chained hmet hchained).1
  | @spelled index negated hmem hsides =>
    have hcompare : R.compare tokens value index = Truth.ofBool (!negated) := hmet _ hmem
    rw [TenantReading.compare, hsides] at hcompare
    cases negated <;> cases hcompare

/-- Operands in one chain get one value, different chains different ones. -/
def chainValue (R : TenantReading) (tokens : List Token) (alternative : List RowLiteral)
    (x : Operand) :
    Option (Quot (R.Joined tokens alternative)) :=
  some (Quot.mk _ x)

open Classical in
/-- The other predicates that are asked for are true, all others false. -/
noncomputable def asked (alternative : List RowLiteral) (index : Nat) : Truth :=
  Truth.ofBool (⟨false, index, false⟩ ∈ alternative)

open Classical in
/-- An alternative that is not impossible is met by some rows. -/
theorem met_chainValue (h : ¬ R.Impossible tokens alternative) {l : RowLiteral}
    (hl : l ∈ alternative) :
    l.Holds (R.compare tokens (chainValue R tokens alternative)) (asked alternative) := by
  obtain ⟨comparison, index, negated⟩ := l
  unfold RowLiteral.Holds
  cases comparison with
  | false =>
    show asked alternative index = _
    cases negated with
    | false => rw [asked, decide_eq_true hl]; rfl
    | true => rw [asked, decide_eq_false fun hmem => h (.predicate hmem hl)]; rfl
  | true =>
    show R.compare tokens _ index = _
    rw [TenantReading.compare]
    cases hsides : sides tokens index with
    | none => exact absurd (.spelled hl hsides) h
    | some names =>
      obtain ⟨left, right⟩ := names
      cases negated with
      | false =>
        have hjoined : R.Joined tokens alternative (R.denote left) (R.denote right) :=
          ⟨index, left, right, hl, hsides, rfl, rfl⟩
        simp [equalValues, chainValue, Quot.sound hjoined, Truth.ofBool]
      | true =>
        have hne : Quot.mk (R.Joined tokens alternative) (R.denote left) ≠
            Quot.mk _ (R.denote right) :=
          fun heq => h (.differ hl hsides (Quot.eqvGen_exact heq))
        simp [equalValues, chainValue, hne, Truth.ofBool]

/-- The rows are isolated exactly when every alternative has its chains. -/
theorem isolates_iff (R : TenantReading) (tokens : List Token) (rule : TenantIsolationRule) :
    R.Isolates tokens rule ↔ R.EveryAlternativeChains tokens rule := by
  constructor
  · intro hisolates alternative halternative
    rw [or_iff_not_imp_left]
    intro hpossible range hrange
    classical
    have hmet := (truth_iff_alternatives (R.condition) false).mpr
      ⟨alternative, halternative, fun l hl => met_chainValue hpossible hl⟩
    obtain ⟨parameter, haccepted, heq, -⟩ := hisolates _ _ _ hmet range hrange
    exact ⟨parameter, haccepted, Quot.eqvGen_exact (Option.some.inj heq)⟩
  · intro hchains V _ value other htrue range hrange
    obtain ⟨alternative, halternative, hmet⟩ :=
    (truth_iff_alternatives (R.condition) false).mp htrue
    obtain ⟨parameter, haccepted, hchained⟩ :=
      (hchains alternative halternative).resolve_left (not_impossible_of_met hmet) range hrange
    obtain ⟨heq, hnone⟩ := value_of_chained hmet hchained
    exact ⟨parameter, haccepted, heq, hnone.resolve_left fun h => by cases h⟩

end Rows

/-- **Tenant bindings.** A binding is reported only where the rows are isolated, exactly when the
equals signs of the text chain the tenant column of some alias to no accepted name, or each
alternative of the condition chains that of every range variable to an accepted parameter. -/
theorem hasTenantBinding_isolates_iff (R : TenantReading) (tokens : List Token)
    (rule : TenantIsolationRule) (relation : String) :
    (hasTenantBinding tokens rule relation = true → R.Isolates tokens rule) ↔
      ¬ AllLinked tokens rule relation ∨ R.EveryAlternativeChains tokens rule := by
  rw [hasTenantBinding_iff, isolates_iff, ← imp_iff_not_or]

/-! ## A disjunction -/

def tenantRule : TenantIsolationRule where
  relationName := "ORDERS"
  tenantColumn := "TENANT_ID"

def openOrders : String :=
  "SELECT * FROM ORDERS WHERE ORDERS.TENANT_ID = P_TENANT_ID OR ORDERS.STATUS <> 'CLOSED'"

/-- The comparison at the sign, or another predicate. -/
def openOrdersReading : TenantReading where
  ranges := ["ORDERS"]
  denote name :=
    if name = "ORDERS.TENANT_ID" then .column "ORDERS" "TENANT_ID" else .parameter name
  condition := .or (.equal 8) (.other 14)

example : (scan openOrders).tokens[8]?.map Token.value = some "=" := by decide +kernel
example : sides (scan openOrders).tokens 8 = some ("ORDERS.TENANT_ID", "P_TENANT_ID") := by
  decide +kernel

/-- An order of one tenant while the parameter names another. -/
def otherTenant : Operand → Option Bool
  | .column _ _ => some true
  | .parameter _ => some false

/-- The binding is reported, and an order of another tenant that is not closed is read. -/
theorem open_orders_not_isolated :
    hasTenantBinding (scan openOrders).tokens tenantRule "ORDERS" = true ∧
      ¬ openOrdersReading.Isolates (scan openOrders).tokens tenantRule := by
  refine ⟨by decide +kernel, fun h => ?_⟩
  have hread : openOrdersReading.condition.truth
      (openOrdersReading.compare (scan openOrders).tokens otherTenant)
      (fun _ => .true) = .true := by
    show (openOrdersReading.compare (scan openOrders).tokens otherTenant 8).or .true = .true
    cases openOrdersReading.compare (scan openOrders).tokens otherTenant 8 <;> rfl
  obtain ⟨parameter, -, heq, -⟩ := h Bool otherTenant _ hread "ORDERS" (List.mem_singleton.mpr rfl)
  cases heq

end AtlasDb.Semantics
