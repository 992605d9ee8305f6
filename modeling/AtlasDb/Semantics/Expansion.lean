import AtlasDb.Semantics.Unreachable

/-!
# The branches of an expression

`_branches` brings an expression into disjunctive normal form while it pushes negations inwards, and
gives up when there are too many branches. Without the limit the branches are `expansion`. They are
exact in three-valued logic for both polarities (`truth_iff_expansion`): the expression is TRUE when
all literals of some branch are met, and FALSE when those of some branch of its negation are. The
limit is not one on the branches of a subexpression alone: the product over the operands of a
conjunction is cut off while it is being built, also when a later operand has no branches at all.
-/

namespace AtlasDb.Semantics

open Core Lib Parsing Analysis

/-! ## Expansion without a limit -/

mutual

/-- The branches of an expression, or of its negation, with the atoms as they are written. -/
def expansion : PredicateExpr → Bool → List Branch
  | .not e, negated => expansion e (!negated)
  | .true, negated => if negated then [] else [[]]
  | .false, negated => if negated then [[]] else []
  | .atomic text, negated => [[⟨text, negated⟩]]
  | .unknown text, negated => [[⟨text, negated⟩]]
  | .and es, negated => if negated then expansionUnion es negated else expansionProduct es negated
  | .or es, negated => if negated then expansionProduct es negated else expansionUnion es negated

def expansionUnion : List PredicateExpr → Bool → List Branch
  | [], _ => []
  | e :: es, negated => expansion e negated ++ expansionUnion es negated

def expansionProduct : List PredicateExpr → Bool → List Branch
  | [], _ => [[]]
  | e :: es, negated =>
    (expansion e negated).flatMap fun left => (expansionProduct es negated).map (left ++ ·)

end

/-- What a polarity asks of an expression. -/
def wanted : Bool → Truth
  | true => .false
  | false => .true

/-- All literals of the branch come out as they should. -/
def Satisfied (τ : String → Truth) (b : Branch) : Prop := ∀ l ∈ b, τ l.text = wanted l.negated

section Truth

variable {τ : String → Truth}

theorem satisfied_append {xs ys : Branch} :
    Satisfied τ (xs ++ ys) ↔ Satisfied τ xs ∧ Satisfied τ ys := List.forall_mem_append

theorem satisfied_singleton {l : AtomLiteral} : Satisfied τ [l] ↔ τ l.text = wanted l.negated :=
  List.forall_mem_singleton

theorem exists_satisfied_append {bs cs : List Branch} :
    (∃ b ∈ bs ++ cs, Satisfied τ b) ↔ (∃ b ∈ bs, Satisfied τ b) ∨ ∃ c ∈ cs, Satisfied τ c := by
  simp only [List.mem_append, or_and_right, exists_or]

theorem exists_satisfied_product {bs cs : List Branch} :
    (∃ b ∈ bs.flatMap fun left => cs.map (left ++ ·), Satisfied τ b) ↔
      (∃ b ∈ bs, Satisfied τ b) ∧ ∃ c ∈ cs, Satisfied τ c := by
  constructor
  · rintro ⟨b, hb, hsat⟩
    obtain ⟨left, hleft, hb⟩ := List.mem_flatMap.mp hb
    obtain ⟨right, hright, rfl⟩ := List.mem_map.mp hb
    obtain ⟨hl, hr⟩ := satisfied_append.mp hsat
    exact ⟨⟨left, hleft, hl⟩, right, hright, hr⟩
  · rintro ⟨⟨left, hleft, hl⟩, right, hright, hr⟩
    exact ⟨left ++ right, List.mem_flatMap.mpr ⟨left, hleft, List.mem_map_of_mem hright⟩,
      satisfied_append.mpr ⟨hl, hr⟩⟩

mutual

/-- **Exactness**: an expression is TRUE, or FALSE, exactly when all literals of some branch of this
polarity come out as they should. -/
theorem truth_iff_expansion (e : PredicateExpr) (negated : Bool) :
    exprTruth τ e = wanted negated ↔ ∃ b ∈ expansion e negated, Satisfied τ b := by
  cases e with
  | atomic text => simp [expansion, exprTruth, satisfied_singleton]
  | unknown text => simp [expansion, exprTruth, satisfied_singleton]
  | «true» => cases negated <;> simp [expansion, exprTruth, wanted, Satisfied]
  | «false» => cases negated <;> simp [expansion, exprTruth, wanted, Satisfied]
  | not e =>
    rw [expansion, ← truth_iff_expansion e (!negated), exprTruth]
    cases negated with
    | false => exact Truth.not_eq_true
    | true => exact Truth.not_eq_false
  | and es =>
    cases negated with
    | false => exact allTruth_iff_product es
    | true => exact allTruth_iff_union es
  | or es =>
    cases negated with
    | false => exact anyTruth_iff_union es
    | true => exact anyTruth_iff_product es

theorem allTruth_iff_product (es : List PredicateExpr) :
    allTruth τ es = .true ↔ ∃ b ∈ expansionProduct es false, Satisfied τ b := by
  cases es with
  | nil => simp [allTruth, expansionProduct, Satisfied]
  | cons e es =>
    rw [allTruth, expansionProduct, Truth.and_eq_true, exists_satisfied_product,
      ← truth_iff_expansion e false, ← allTruth_iff_product es]
    rfl

theorem allTruth_iff_union (es : List PredicateExpr) :
    allTruth τ es = .false ↔ ∃ b ∈ expansionUnion es true, Satisfied τ b := by
  cases es with
  | nil => simp [allTruth, expansionUnion]
  | cons e es =>
    rw [allTruth, expansionUnion, Truth.and_eq_false, exists_satisfied_append,
      ← truth_iff_expansion e true, ← allTruth_iff_union es]
    rfl

theorem anyTruth_iff_union (es : List PredicateExpr) :
    anyTruth τ es = .true ↔ ∃ b ∈ expansionUnion es false, Satisfied τ b := by
  cases es with
  | nil => simp [anyTruth, expansionUnion]
  | cons e es =>
    rw [anyTruth, expansionUnion, Truth.or_eq_true, exists_satisfied_append,
      ← truth_iff_expansion e false, ← anyTruth_iff_union es]
    rfl

theorem anyTruth_iff_product (es : List PredicateExpr) :
    anyTruth τ es = .false ↔ ∃ b ∈ expansionProduct es true, Satisfied τ b := by
  cases es with
  | nil => simp [anyTruth, expansionProduct, Satisfied]
  | cons e es =>
    rw [anyTruth, expansionProduct, Truth.or_eq_false, exists_satisfied_product,
      ← truth_iff_expansion e true, ← anyTruth_iff_product es]
    rfl

end

end Truth

/-! ## What the limit leaves -/

section Folded

variable [Text.CaseMap]

/-- The literals as the evaluator keeps them. -/
def foldBranch (b : Branch) : Branch := b.map fun l => ⟨foldAtom l.text, l.negated⟩

theorem foldBranch_append (xs ys : Branch) :
    foldBranch (xs ++ ys) = foldBranch xs ++ foldBranch ys :=
  List.map_append

theorem satisfied_foldBranch {τ : String → Truth} {b : Branch} :
    Satisfied τ (foldBranch b) ↔ Satisfied (τ ∘ foldAtom) b := List.forall_mem_map

/-- The limit was reached at a disjunction, or in the product over the first operands of a
conjunction. -/
inductive Exceeds : PredicateExpr → Bool → Prop where
  | branches {e : PredicateExpr} {negated : Bool} (h : maxBranches < (expansion e negated).length) :
      Exceeds e negated
  | conjunction {front back : List PredicateExpr}
      (h : maxBranches < (expansionProduct front false).length) : Exceeds
      (.and (front ++ back)) false
  | rejected {front back : List PredicateExpr}
      (h : maxBranches < (expansionProduct front true).length) : Exceeds (.or (front ++ back)) true

/-- The expression occurs in the other one, in the polarity in which it is expanded there. -/
inductive Occurs (e : PredicateExpr) (negated : Bool) : PredicateExpr → Bool → Prop where
  | self : Occurs e negated e negated
  | not {whole : PredicateExpr} {polarity : Bool} (h : Occurs e negated whole (!polarity)) :
      Occurs e negated (.not whole) polarity
  | and {part : PredicateExpr} {operands : List PredicateExpr} {polarity : Bool}
      (hpart : part ∈ operands) (h : Occurs e negated part polarity) :
      Occurs e negated (.and operands) polarity
  | or {part : PredicateExpr} {operands : List PredicateExpr} {polarity : Bool}
      (hpart : part ∈ operands) (h : Occurs e negated part polarity) :
      Occurs e negated (.or operands) polarity

/-- The product over the children, as far as they go. -/
def productAll (result : List Branch) (children : List (List Branch)) : List Branch :=
  children.foldl (fun result child => result.flatMap fun left => child.map (left ++ ·)) result

omit [Text.CaseMap] in
theorem productBranches_eq {children : List (List Branch)} {result bs : List Branch}
    (h : productBranches result children = some bs) : bs = productAll result children := by
  induction children generalizing result with
  | nil => exact (Option.some.inj h).symm
  | cons child children ih => exact ih (productBranches_cons h)

omit [Text.CaseMap] in
theorem productBranches_none {children : List (List Branch)} {result : List Branch}
    (hresult : result.length ≤ maxBranches) :
    productBranches result children = none ↔
      ∃ front back, children = front ++ back ∧ maxBranches < (productAll result front).length := by
  induction children generalizing result with
  | nil =>
    constructor
    · intro h
      cases h
    · rintro ⟨front, back, hsplit, hlength⟩
      obtain ⟨rfl, -⟩ := List.append_eq_nil_iff.mp hsplit.symm
      exact absurd hlength (Nat.not_lt.mpr hresult)
  | cons child children ih =>
    rw [productBranches]
    split
    · next hlength => exact ⟨fun _ => ⟨[child], children, rfl, hlength⟩, fun _ => rfl⟩
    · next hlength =>
        rw [ih (Nat.not_lt.mp hlength)]
        constructor
        · rintro ⟨front, back, rfl, hfront⟩
          exact ⟨child :: front, back, rfl, hfront⟩
        · rintro ⟨front, back, hsplit, hfront⟩
          cases front with
          | nil => exact absurd hfront (Nat.not_lt.mpr hresult)
          | cons first front =>
            obtain ⟨rfl, rfl⟩ := List.cons.inj hsplit
            exact ⟨front, back, rfl, hfront⟩

/-- The branches of the operands, as the evaluator keeps them. -/
def operandBranches (es : List PredicateExpr) (negated : Bool) : List (List Branch) :=
  es.map fun e => (expansion e negated).map foldBranch

theorem flatten_operandBranches (es : List PredicateExpr) (negated : Bool) :
    (operandBranches es negated).flatten = (expansionUnion es negated).map foldBranch := by
  induction es with
  | nil => rfl
  | cons e es ih =>
    rw [expansionUnion, List.map_append, ← ih]
    rfl

theorem productAll_operandBranches (result : List Branch) (es : List PredicateExpr)
    (negated : Bool) :
    productAll result (operandBranches es negated) =
      result.flatMap fun left => (expansionProduct es negated).map fun right =>
      left ++ foldBranch right := by
  induction es generalizing result with
  | nil => simp [operandBranches, productAll, expansionProduct, foldBranch]
  | cons e es ih =>
    show productAll (result.flatMap fun left =>
      ((expansion e negated).map foldBranch).map (left ++ ·))
      (operandBranches es negated) = _
    rw [ih, List.flatMap_assoc]
    simp only [expansionProduct, List.map_flatMap, List.flatMap_map, List.map_map,
      Function.comp_def,
      foldBranch_append, List.append_assoc]

theorem length_productAll (es : List PredicateExpr) (negated : Bool) :
    (productAll [[]] (operandBranches es negated)).length =
    (expansionProduct es negated).length := by
  rw [productAll_operandBranches]
  simp

mutual

theorem branches_eq_expansion (e : PredicateExpr) {negated : Bool} {bs : List Branch}
    (h : branches e negated = some bs) : bs = (expansion e negated).map foldBranch := by
  cases e with
  | atomic text => exact (Option.some.inj h).symm
  | unknown text => exact (Option.some.inj h).symm
  | «true» => cases negated <;> exact (Option.some.inj h).symm
  | «false» => cases negated <;> exact (Option.some.inj h).symm
  | not e => exact branches_eq_expansion e h
  | and es =>
    obtain ⟨children, hchildren, h⟩ := Option.bind_eq_some_iff.mp h
    obtain rfl := branchesOfAll_eq_expansion es hchildren
    rw [expansion]
    cases negated with
    | true => exact (unionBranches_eq_some h).trans (flatten_operandBranches es true)
    | false =>
      rw [productBranches_eq h, productAll_operandBranches]
      simp
  | or es =>
    obtain ⟨children, hchildren, h⟩ := Option.bind_eq_some_iff.mp h
    obtain rfl := branchesOfAll_eq_expansion es hchildren
    rw [expansion]
    cases negated with
    | true =>
      rw [productBranches_eq h, productAll_operandBranches]
      simp
    | false => exact (unionBranches_eq_some h).trans (flatten_operandBranches es false)

theorem branchesOfAll_eq_expansion (es : List PredicateExpr) {negated : Bool}
    {children : List (List Branch)} (h : branchesOfAll es negated = some children) :
    children = operandBranches es negated := by
  cases es with
  | nil => exact (Option.some.inj h).symm
  | cons e es =>
    obtain ⟨b, bs, hb, hbs, rfl⟩ := branchesOfAll_cons h
    rw [branches_eq_expansion e hb, branchesOfAll_eq_expansion es hbs]
    rfl

end

/-! ## When the limit is reached -/

theorem branchesOfAll_none {es : List PredicateExpr} {negated : Bool} :
    branchesOfAll es negated = none ↔ ∃ e ∈ es, branches e negated = none := by
  induction es with
  | nil => simp [branchesOfAll]
  | cons e es ih =>
    rw [branchesOfAll, List.exists_mem_cons_iff, ← ih]
    cases branches e negated with
    | none => simp
    | some b => simp

omit [Text.CaseMap] in
theorem unionBranches_none {children : List (List Branch)} :
    unionBranches children = none ↔ maxBranches < children.flatten.length := by
  unfold unionBranches
  split
  · next h => exact ⟨fun _ => h, fun _ => rfl⟩
  · next h => exact ⟨nofun, fun h' => absurd h' h⟩

theorem product_none {es : List PredicateExpr} {negated : Bool} :
    ((branchesOfAll es negated).bind fun children => productBranches [[]] children) = none ↔
      (∃ e ∈ es, branches e negated = none) ∨
        ∃ front back, es = front ++ back ∧
        maxBranches < (expansionProduct front negated).length := by
  rw [← branchesOfAll_none]
  cases hchildren : branchesOfAll es negated with
  | none => simp
  | some children =>
    obtain rfl := branchesOfAll_eq_expansion es hchildren
    rw [Option.bind_some, productBranches_none (by decide)]
    constructor
    · rintro ⟨front, back, hsplit, hlength⟩
      obtain ⟨es₁, es₂, rfl, rfl, rfl⟩ := List.map_eq_append_iff.mp hsplit
      exact .inr ⟨es₁, es₂, rfl, by rwa [← length_productAll]⟩
    · rintro (h | ⟨front, back, rfl, hlength⟩)
      · cases h
      · exact ⟨_, _, List.map_append, by rwa [← length_productAll] at hlength⟩

theorem union_none {es : List PredicateExpr} {negated : Bool} :
    ((branchesOfAll es negated).bind fun children => unionBranches children) = none ↔
      (∃ e ∈ es, branches e negated = none) ∨ maxBranches < (expansionUnion es negated).length := by
  rw [← branchesOfAll_none]
  cases hchildren : branchesOfAll es negated with
  | none => simp
  | some children =>
    obtain rfl := branchesOfAll_eq_expansion es hchildren
    rw [Option.bind_some, unionBranches_none, flatten_operandBranches, List.length_map]
    simp

theorem Exceeds.branches_none {e : PredicateExpr} {negated : Bool} (h : Exceeds e negated) :
    Analysis.branches e negated = none := by
  cases h with
  | branches hlength =>
    rw [Option.eq_none_iff_forall_ne_some]
    intro bs hbs
    have hle := branches_length hbs
    rw [branches_eq_expansion e hbs, List.length_map] at hle
    exact Nat.not_lt.mpr hle hlength
  | conjunction hlength => exact product_none.mpr (.inr ⟨_, _, rfl, hlength⟩)
  | rejected hlength => exact product_none.mpr (.inr ⟨_, _, rfl, hlength⟩)

theorem Occurs.branches_none {e whole : PredicateExpr} {negated polarity : Bool}
    (h : Occurs e negated whole polarity) (hnone : branches e negated = none) :
    branches whole polarity = none := by
  induction h with
  | self => exact hnone
  | not _ ih => exact ih
  | and hpart _ ih =>
    rw [branches, branchesOfAll_none.mpr ⟨_, hpart, ih⟩]
    rfl
  | or hpart _ ih =>
    rw [branches, branchesOfAll_none.mpr ⟨_, hpart, ih⟩]
    rfl

/-- The limit is reached somewhere in the expression. -/
def Overflows (whole : PredicateExpr) (polarity : Bool) : Prop :=
  ∃ e negated, Occurs e negated whole polarity ∧ Exceeds e negated

mutual

/-- Without branches some expansion overflows. -/
theorem overflows_of_none (whole : PredicateExpr) {polarity : Bool}
    (h : branches whole polarity = none) : Overflows whole polarity := by
  cases whole with
  | atomic text => cases h
  | unknown text => cases h
  | «true» => cases h
  | «false» => cases h
  | not e =>
    obtain ⟨part, negated, hoccurs, hexceeds⟩ := overflows_of_none e h
    exact ⟨part, negated, .not hoccurs, hexceeds⟩
  | and es =>
    cases polarity with
    | false =>
      rcases product_none.mp h with h | ⟨front, back, rfl, hlength⟩
      · obtain ⟨e, he, part, negated, hoccurs, hexceeds⟩ := overflows_of_part es h
        exact ⟨part, negated, .and he hoccurs, hexceeds⟩
      · exact ⟨_, _, .self, .conjunction hlength⟩
    | true =>
      rcases union_none.mp h with h | hlength
      · obtain ⟨e, he, part, negated, hoccurs, hexceeds⟩ := overflows_of_part es h
        exact ⟨part, negated, .and he hoccurs, hexceeds⟩
      · exact ⟨_, _, .self, .branches hlength⟩
  | or es =>
    cases polarity with
    | false =>
      rcases union_none.mp h with h | hlength
      · obtain ⟨e, he, part, negated, hoccurs, hexceeds⟩ := overflows_of_part es h
        exact ⟨part, negated, .or he hoccurs, hexceeds⟩
      · exact ⟨_, _, .self, .branches hlength⟩
    | true =>
      rcases product_none.mp h with h | ⟨front, back, rfl, hlength⟩
      · obtain ⟨e, he, part, negated, hoccurs, hexceeds⟩ := overflows_of_part es h
        exact ⟨part, negated, .or he hoccurs, hexceeds⟩
      · exact ⟨_, _, .self, .rejected hlength⟩

theorem overflows_of_part (es : List PredicateExpr) {polarity : Bool}
    (h : ∃ e ∈ es, branches e polarity = none) : ∃ e ∈ es, Overflows e polarity := by
  cases es with
  | nil => exact absurd h (by simp)
  | cons e es =>
    rcases (List.exists_mem_cons_iff _ _ _).mp h with h | h
    · exact ⟨e, List.mem_cons_self, overflows_of_none e h⟩
    · obtain ⟨part, hpart, hoverflows⟩ := overflows_of_part es h
      exact ⟨part, List.mem_cons_of_mem _ hpart, hoverflows⟩

end

/-- **The expansion of a predicate.** The branches that are returned are exact for every valuation
of the atoms, and none are returned exactly when the limit is reached somewhere: by all branches of
a subexpression, or by the product over the first operands of a conjunction. -/
theorem branches_exact (e : PredicateExpr) :
    (∀ bs, branches e false = some bs → ∀ τ : String → Truth,
      exprTruth (τ ∘ foldAtom) e = .true ↔ ∃ b ∈ bs, Satisfied τ b) ∧
    (branches e false = none ↔ Overflows e false) := by
  refine ⟨fun bs hbs τ => ?_, overflows_of_none e, ?_⟩
  · rw [branches_eq_expansion e hbs]
    show _ = wanted false ↔ _
    rw [truth_iff_expansion e false]
    simp only [List.mem_map, exists_exists_and_eq_and, satisfied_foldBranch]
  · rintro ⟨part, negated, hoccurs, hexceeds⟩
    exact hoccurs.branches_none hexceeds.branches_none

end Folded

local instance asciiExpansion : Text.CaseMap := Text.asciiCase

/-- `A OR B OR C OR D OR E OR F`. -/
def sixAlternatives : PredicateExpr :=
  .or [.atomic "A", .atomic "B", .atomic "C", .atomic "D", .atomic "E", .atomic "F"]

/-- A conjunction with no branches at all, since its last operand is FALSE. -/
def emptyConjunction : PredicateExpr := .and [sixAlternatives, sixAlternatives, .false]

/-- The product over the first two operands is given up before the third one is looked at, though no
subexpression has more than six branches. -/
theorem empty_conjunction_overflows :
    branches emptyConjunction false = none ∧
      ∀ e negated, Occurs e negated emptyConjunction false →
        (expansion e negated).length ≤ maxBranches := by
  refine ⟨by decide, fun e negated hoccurs => ?_⟩
  have hatom (text : String) (polarity : Bool) {e : PredicateExpr} {negated : Bool}
      (h : Occurs e negated (.atomic text) polarity) : (expansion e negated).length ≤
      maxBranches := by
    cases h
    exact (by decide : 1 ≤ maxBranches)
  have hsix {e : PredicateExpr} {negated : Bool} (h : Occurs e negated sixAlternatives false) :
      (expansion e negated).length ≤ maxBranches := by
    cases h with
    | self => decide
    | or hpart h =>
      simp only [List.mem_cons, List.not_mem_nil, or_false] at hpart
      rcases hpart with rfl | rfl | rfl | rfl | rfl | rfl
      all_goals exact hatom _ _ h
  cases hoccurs with
  | self => decide
  | and hpart h =>
    simp only [List.mem_cons, List.not_mem_nil, or_false] at hpart
    rcases hpart with rfl | rfl | rfl
    · exact hsix h
    · exact hsix h
    · cases h
      decide

end AtlasDb.Semantics
