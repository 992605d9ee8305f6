import AtlasDb.Lib.Bounds
import AtlasDb.Semantics.Expansion
import Mathlib.Algebra.Order.Field.Basic
import Mathlib.Algebra.Order.Field.Rat

/-!
# Contradictions as written

The evaluator looks for contradictions among atoms whose texts are folded to capitals and single
blanks, the string literals in them included. An assignment tells strings apart by case and blanks,
so what is contradictory after folding need not be contradictory as it is written. A branch as
written can be met by some assignment unless a literal comparison comes out otherwise, an atom is
asked to be TRUE and FALSE, or the demands on some variable clash (`unmeetable_iff`). A comparison
of a string by order depends on the collation and counts as uninterpreted.
-/

namespace AtlasDb.Semantics

open Core Lib Parsing Analysis

/-! ## Atoms as written -/

section Folded

variable [Text.CaseMap]

/-- Capitals and single blanks outside of quotes. `quote` is the quote that is open, and `blank` a
blank that is still to be written. -/
def foldOutside (quote : Option Char) (blank : Bool) : List Char → List Char
  | [] => []
  | c :: cs =>
    match quote with
    | some q => c :: foldOutside (if c = q then none else some q) false cs
    | none =>
      if Text.isSpace c then foldOutside none true cs
      else
        let next := if c = '\'' ∨ c = '"' then some c else none
        (if blank then [' '] else []) ++ (Text.CaseMap.upper c ++ foldOutside next false cs)

/-- The text of an atom, such that two spellings of one atom agree. -/
def writtenAtom (text : String) : String :=
  String.ofList (foldOutside none false (Text.strip text.toList))

def asWritten (b : Branch) : Branch := b.map fun l => ⟨writtenAtom l.text, l.negated⟩

theorem satisfied_asWritten {τ : String → Truth} {b : Branch} :
    Satisfied τ (asWritten b) ↔ Satisfied (τ ∘ writtenAtom) b := List.forall_mem_map

end Folded

/-! ## Assignments -/

/-- A string is given by the literal that spells it. -/
inductive Value where
  | null
  | number (q : ℚ)
  | string (literal : List Char)
deriving DecidableEq

/-- Values of the variables, and the truth of the atoms that are not interpreted. -/
structure Valuation where
  value : String → Value
  other : String → Truth

/-- The truth of an atom in capitals and single blanks. A comparison with NULL, or with a value of
the other kind, is unknown. -/
def Valuation.truth (V : Valuation) (text : String) : Truth :=
  match shapeOf text with
  | .literal value => .ofBool value
  | .other => V.other text
  | .nullTest symbol isNull => .ofBool (decide (V.value symbol = .null) == isNull)
  | .comparison symbol op q =>
    match V.value symbol with
    | .number x => .ofBool (op.holds x q)
    | _ => .unknown
  | .stringEquality symbol equal literal =>
    match V.value symbol with
    | .string w => .ofBool (decide (w = literal) == equal)
    | _ => .unknown

/-- The truth of an expression under the assignment. -/
def Valuation.exprTruth [Text.CaseMap] (V : Valuation) (e : PredicateExpr) : Truth :=
  Semantics.exprTruth (V.truth ∘ writtenAtom) e

/-- The variables are NULL that are known to be. -/
def Valuation.Knows (V : Valuation) (nulls : List String) : Prop :=
  ∀ symbol ∈ nulls, V.value symbol = .null

/-! ## Demands -/

/-- The comparison that is TRUE where this one is FALSE. -/
def complement : Comparison → Comparison
  | .eq => .ne
  | .ne => .eq
  | .lt => .ge
  | .ge => .lt
  | .gt => .le
  | .le => .gt

theorem holds_complement (op : Comparison) (x q : ℚ) :
    (complement op).holds x q = !op.holds x q := by
  cases op <;> simp only [complement, Comparison.holds] <;> grind

/-- What a literal demands of its variable. A comparison is demanded to be TRUE, or to be FALSE. -/
def demandOf (l : AtomLiteral) : Option Fact :=
  match shapeOf l.text with
  | .nullTest symbol isNull => some (.null symbol (isNull != l.negated))
  | .comparison symbol op q => some (.number symbol (if l.negated then complement op else op) q)
  | .stringEquality symbol equal literal => some (.string symbol (equal != l.negated) literal)
  | _ => none

/-- The demands of a branch on the variables, some of which are known to be NULL. -/
def demandsOf (nulls : List String) (b : Branch) : List Fact :=
  nulls.map (Fact.null · true) ++ b.filterMap demandOf

def Fact.symbol : Fact → String
  | .null symbol _ => symbol
  | .number symbol _ _ => symbol
  | .string symbol _ _ => symbol

/-- Demands on a variable that no value meets: two that exclude each other, one of a value on a
variable to be NULL, a number and a string, or the one number between two bounds is to be
avoided. -/
inductive Clash (demands : List Fact) : Prop
  | excludes {f g : Fact} (hf : f ∈ demands) (hg : g ∈ demands) (h : f.Excludes g)
  | null {f : Fact} (hnull : .null f.symbol true ∈ demands) (hf : f ∈ demands)
      (h : f ≠ .null f.symbol true)
  | kinds {symbol : String} {op : Comparison} {q : ℚ} {equal : Bool} {literal : List Char}
      (hnumber : .number symbol op q ∈ demands) (hstring : .string symbol equal literal ∈ demands)
  | squeezed {symbol : String} {q : ℚ} (hge : .number symbol .ge q ∈ demands)
      (hle : .number symbol .le q ∈ demands) (hne : .number symbol .ne q ∈ demands)

/-- A literal comparison comes out otherwise, an atom is to be TRUE and FALSE, or the demands on a
variable clash. -/
inductive Unmeetable (nulls : List String) (b : Branch) : Prop
  | literal {l : AtomLiteral} (hl : l ∈ b) (h : shapeOf l.text = .literal l.negated)
  | opposite {text : String} (hrequired : ⟨text, false⟩ ∈ b) (hrejected : ⟨text, true⟩ ∈ b)
  | demands (h : Clash (demandsOf nulls b))

/-- The value is as the fact says of its variable. -/
def Value.Meets (v : Value) : Fact → Prop
  | .null _ isNull => decide (v = .null) = isNull
  | .number _ op q => ∃ x, v = .number x ∧ op.holds x q = true
  | .string _ equal literal => ∃ w, v = .string w ∧ (decide (w = literal) == equal) = true

section Demands

variable {demands : List Fact} {symbol : String} {nulls : List String} {b : Branch} {V : Valuation}

/-- The values as a reading of the atoms. -/
def Valuation.reading (V : Valuation) : AtomReading where
  value symbol :=
    match V.value symbol with
    | .null => none
    | .number q => some (q, [])
    | .string literal => some (0, literal)
  other := V.other

theorem meets_reading {f : Fact} (h : (V.value f.symbol).Meets f) : V.reading.Meets f := by
  cases f with
  | null symbol isNull =>
    show Option.isNone _ = isNull
    rw [← h]
    cases hv : V.value symbol <;> simp [Valuation.reading, Fact.symbol, hv]
  | number symbol op q =>
    obtain ⟨x, hx, hop⟩ := h
    exact ⟨(x, []), by simp [Valuation.reading, show V.value symbol = _ from hx], hop⟩
  | string symbol equal literal =>
    obtain ⟨w, hw, hequal⟩ := h
    exact ⟨(0, w), by simp [Valuation.reading, show V.value symbol = _ from hw], hequal⟩

theorem not_clash (h : ∀ f ∈ demands, (V.value f.symbol).Meets f) : ¬ Clash demands := by
  intro hclash
  cases hclash with
  | excludes hf hg hexcludes =>
    exact AtomReading.not_meets_of_excludes hexcludes (meets_reading (h _ hf))
      (meets_reading (h _ hg))
  | @null f hnull hf hne =>
    have hvalue : V.value f.symbol = .null := of_decide_eq_true (h _ hnull)
    have hmeets := h f hf
    rw [hvalue] at hmeets
    cases f with
    | null symbol isNull => exact hne (congrArg _ (hmeets.symm.trans (decide_eq_true rfl)))
    | number symbol op q => obtain ⟨x, hx, _⟩ := hmeets; cases hx
    | string symbol equal literal => obtain ⟨w, hw, _⟩ := hmeets; cases hw
  | kinds hnumber hstring =>
    obtain ⟨x, hx, _⟩ := h _ hnumber
    obtain ⟨w, hw, _⟩ := h _ hstring
    cases hx.symm.trans hw
  | @squeezed symbol q hge hle hne =>
    obtain ⟨x, hx, hge⟩ := h _ hge
    obtain ⟨y, hy, hle⟩ := h _ hle
    obtain ⟨z, hz, hne⟩ := h _ hne
    obtain rfl : x = y := Value.number.inj (hx.symm.trans hy)
    obtain rfl : x = z := Value.number.inj (hx.symm.trans hz)
    exact of_decide_eq_true hne (le_antisymm (not_lt.mp (of_decide_eq_true hle))
      (not_lt.mp (of_decide_eq_true hge)))

/-! A number for the demands that compare a variable with numbers. -/

/-- The bounds on the variable from one side; the comparisons are the open and the inclusive one. -/
def boundsOn (symbol : String) (isOpen inclusive : Comparison) (demands : List Fact) :
    List (ℚ × Bool) :=
  demands.filterMap fun
    | .number s op q =>
      if s ≠ symbol then none
      else if op = isOpen then some (q, false)
      else if op = inclusive then some (q, true)
      else none
    | _ => none

theorem mem_boundsOn {isOpen inclusive : Comparison} (hne : isOpen ≠ inclusive) {q : ℚ}
    {closed : Bool} :
    (q, closed) ∈ boundsOn symbol isOpen inclusive demands ↔
      .number symbol (if closed then inclusive else isOpen) q ∈ demands := by
  unfold boundsOn
  rw [List.mem_filterMap]
  constructor
  · rintro ⟨f, hf, hbound⟩
    cases f with
    | null s isNull => cases hbound
    | string s equal literal => cases hbound
    | number s op value =>
      dsimp only at hbound
      split_ifs at hbound with hs hopen hinclusive <;> cases hbound <;> simp_all
  · intro h
    refine ⟨_, h, ?_⟩
    cases closed <;> simp [hne.symm]

/-- The numbers the variable is not to be. -/
def avoidedOn (symbol : String) (demands : List Fact) : List ℚ :=
  demands.filterMap fun
    | .number s .ne q => if s = symbol then some q else none
    | _ => none

theorem mem_avoidedOn {q : ℚ} : q ∈ avoidedOn symbol demands ↔ .number symbol .ne q ∈ demands := by
  unfold avoidedOn
  rw [List.mem_filterMap]
  constructor
  · rintro ⟨f, hf, hne⟩
    cases f with
    | null s isNull => cases hne
    | string s equal literal => cases hne
    | number s op value => cases op <;> simp at hne; simp_all
  · intro h
    exact ⟨_, h, if_pos rfl⟩

/-- A number that all comparisons of the variable with numbers are TRUE for. -/
theorem exists_number (h : ¬ Clash demands) (symbol : String) :
    ∃ x : ℚ, ∀ op q, .number symbol op q ∈ demands → op.holds x q = true := by
  by_cases hequal : ∃ x, .number symbol .eq x ∈ demands
  · obtain ⟨x, hx⟩ := hequal
    refine ⟨x, fun op q hmem => ?_⟩
    by_contra hfails
    exact h (.excludes hx hmem (.number (Bool.not_eq_true _ ▸ hfails)))
  · have hlowers {q : ℚ} {closed : Bool} : (q, closed) ∈ boundsOn symbol .gt .ge demands ↔
        .number symbol (if closed then .ge else .gt) q ∈ demands := mem_boundsOn (by decide)
    have huppers {q : ℚ} {closed : Bool} : (q, closed) ∈ boundsOn symbol .lt .le demands ↔
        .number symbol (if closed then .le else .lt) q ∈ demands := mem_boundsOn (by decide)
    have hpairs : ∀ l ∈ boundsOn symbol .gt .ge demands, ∀ u ∈ boundsOn symbol .lt .le demands,
        Compatible l u := by
      rintro ⟨l, closed⟩ hl ⟨u, closed'⟩ hu
      by_contra hapart
      have hle : u ≤ l := not_lt.mp fun hlt => hapart (.inl hlt)
      refine h (.excludes (hlowers.mp hl) (huppers.mp hu) (.bounds ?_ ?_ hle fun heq => ?_))
      · cases closed <;> simp
      · cases closed' <;> simp
      · cases closed with
        | false => exact .inl rfl
        | true =>
          cases closed' with
          | false => exact .inr rfl
          | true => exact absurd (.inr ⟨heq, rfl, rfl⟩) hapart
    have hroom : ∀ q ∈ avoidedOn symbol demands, (q, true) ∈ boundsOn symbol .gt .ge demands →
        (q, true) ∉ boundsOn symbol .lt .le demands := fun q hq hl hu =>
      h (.squeezed (hlowers.mp hl) (huppers.mp hu) (mem_avoidedOn.mp hq))
    obtain ⟨x, hlower, hupper, havoided⟩ := exists_within hpairs hroom
    refine ⟨x, fun op q hmem => ?_⟩
    cases op with
    | eq => exact absurd ⟨q, hmem⟩ hequal
    | ne =>
      refine decide_eq_true fun heq => havoided (mem_avoidedOn.mpr ?_)
      rw [heq]
      exact hmem
    | gt => exact decide_eq_true ((hlower (q, false) (hlowers.mpr hmem)).elim id (by simp))
    | ge =>
      exact decide_eq_true ((hlower (q, true) (hlowers.mpr hmem)).elim lt_asymm fun h => h.1.not_gt)
    | lt => exact decide_eq_true ((hupper (q, false) (huppers.mpr hmem)).elim id (by simp))
    | le =>
      exact decide_eq_true ((hupper (q, true) (huppers.mpr hmem)).elim lt_asymm fun h => h.1.not_gt)

/-- A string literal that all comparisons of the variable with string literals are TRUE for. -/
theorem exists_string (h : ¬ Clash demands) (symbol : String) :
    ∃ w : List Char, ∀ equal literal, .string symbol equal literal ∈ demands →
      (decide (w = literal) == equal) = true := by
  by_cases hequal : ∃ w, .string symbol true w ∈ demands
  · obtain ⟨w, hw⟩ := hequal
    refine ⟨w, fun equal literal hmem => ?_⟩
    by_contra hfails
    exact h (.excludes hw hmem (.string (Bool.not_eq_true _ ▸ hfails)))
  · -- any literal will do that none of the demands compares with
    obtain ⟨w, hw⟩ := Infinite.exists_notMem_finset
      (demands.filterMap fun | .string _ _ literal => some literal | _ => none).toFinset
    refine ⟨w, fun equal literal hmem => ?_⟩
    cases equal with
    | true => exact absurd ⟨literal, hmem⟩ hequal
    | false =>
      have hne : w ≠ literal := by
        rintro rfl
        exact hw (List.mem_toFinset.mpr (List.mem_filterMap.mpr ⟨_, hmem, rfl⟩))
      simp [hne]

/-- **Demands without a clash can be met**, on every variable. -/
theorem exists_value (h : ¬ Clash demands) (symbol : String) :
    ∃ v : Value, ∀ f ∈ demands, f.symbol = symbol → v.Meets f := by
  by_cases hnull : .null symbol true ∈ demands
  · refine ⟨.null, fun f hf hsymbol => ?_⟩
    subst hsymbol
    by_cases hsame : f = .null f.symbol true
    · rw [hsame]
      rfl
    · exact absurd (.null hnull hf hsame) h
  · have hnotNull {isNull : Bool} (hmem : .null symbol isNull ∈ demands) : isNull = false := by
      cases isNull with
      | false => rfl
      | true => exact absurd hmem hnull
    by_cases hstring : ∃ equal literal, .string symbol equal literal ∈ demands
    · obtain ⟨equal, literal, hstring⟩ := hstring
      obtain ⟨w, hw⟩ := exists_string h symbol
      refine ⟨.string w, fun f hf hsymbol => ?_⟩
      subst hsymbol
      cases f with
      | null symbol isNull => exact (hnotNull hf).symm
      | number symbol op q => exact absurd (.kinds hf hstring) h
      | string symbol equal literal => exact ⟨w, rfl, hw _ _ hf⟩
    · obtain ⟨x, hx⟩ := exists_number h symbol
      refine ⟨.number x, fun f hf hsymbol => ?_⟩
      subst hsymbol
      cases f with
      | null symbol isNull => exact (hnotNull hf).symm
      | number symbol op q => exact ⟨x, rfl, hx _ _ hf⟩
      | string symbol equal literal => exact absurd ⟨_, _, hf⟩ hstring

/-! What a literal asks of the assignment. -/

/-- A demand is met iff its fact is. -/
theorem truth_of_demand {l : AtomLiteral} {f : Fact} (hf : demandOf l = some f) :
    V.truth l.text = wanted l.negated ↔ (V.value f.symbol).Meets f := by
  obtain ⟨text, negated⟩ := l
  unfold demandOf at hf
  unfold Valuation.truth
  dsimp only at hf ⊢
  cases hshape : shapeOf text with
  | literal value => rw [hshape] at hf; cases hf
  | other => rw [hshape] at hf; cases hf
  | nullTest symbol isNull =>
    rw [hshape] at hf
    obtain rfl := Option.some.inj hf
    change _ ↔ decide (V.value symbol = .null) = _
    cases hvalue : decide (V.value symbol = .null) <;> cases isNull <;> cases negated <;>
      simp [wanted, Truth.ofBool, hvalue]
  | comparison symbol op q =>
    rw [hshape] at hf
    obtain rfl := Option.some.inj hf
    change _ ↔ ∃ x, V.value symbol = .number x ∧ _
    cases hvalue : V.value symbol with
    | null => cases negated <;> simp [wanted, hvalue]
    | string w => cases negated <;> simp [wanted, hvalue]
    | number x =>
      cases hop : op.holds x q <;> cases negated <;>
        simp [wanted, hvalue, hop, holds_complement, Truth.ofBool]
  | stringEquality symbol equal literal =>
    rw [hshape] at hf
    obtain rfl := Option.some.inj hf
    change _ ↔ ∃ w, V.value symbol = .string w ∧ _
    cases hvalue : V.value symbol with
    | null => cases negated <;> simp [wanted, hvalue]
    | number x => cases negated <;> simp [wanted, hvalue]
    | string w =>
      cases hsame : decide (w = literal) <;> cases equal <;> cases negated <;>
        simp_all [wanted, Truth.ofBool]

/-- The demands are met when the branch is. -/
theorem meets_demandsOf (hknows : V.Knows nulls) (hsat : Satisfied V.truth b) :
    ∀ f ∈ demandsOf nulls b, (V.value f.symbol).Meets f := by
  intro f hf
  rcases List.mem_append.mp hf with hnull | hliteral
  · obtain ⟨symbol, hsymbol, rfl⟩ := List.mem_map.mp hnull
    exact decide_eq_true (hknows symbol hsymbol)
  · obtain ⟨l, hl, hdemand⟩ := List.mem_filterMap.mp hliteral
    exact (truth_of_demand hdemand).mp (hsat l hl)

/-- **The exact condition**: a branch with variables that are NULL can be met by no assignment
exactly if it is unmeetable by what is written in it. -/
theorem unmeetable_iff :
    Unmeetable nulls b ↔ ∀ V : Valuation, V.Knows nulls → ¬ Satisfied V.truth b := by
  constructor
  · intro h V hknows hsat
    cases h with
    | @literal l hl hshape =>
      have htruth := hsat l hl
      unfold Valuation.truth at htruth
      rw [hshape] at htruth
      cases hnegated : l.negated <;> simp [hnegated, wanted, Truth.ofBool] at htruth
    | @opposite text hrequired hrejected =>
      have hboth : wanted false = wanted true :=
        (hsat ⟨text, false⟩ hrequired).symm.trans (hsat ⟨text, true⟩ hrejected)
      cases hboth
    | demands hclash => exact not_clash (meets_demandsOf hknows hsat) hclash
  · intro h
    by_contra hmeetable
    choose value hvalue using exists_value fun hclash => hmeetable (.demands hclash)
    refine h ⟨value, fun text => if ⟨text, false⟩ ∈ b then .true else .false⟩
      (fun symbol hsymbol => ?_) fun l hl => ?_
    · exact of_decide_eq_true (hvalue symbol (.null symbol true)
        (List.mem_append_left _ (List.mem_map_of_mem hsymbol)) rfl)
    · cases hdemand : demandOf l with
      | some f =>
        refine (truth_of_demand hdemand).mpr (hvalue _ f ?_ rfl)
        exact List.mem_append_right _ (List.mem_filterMap.mpr ⟨l, hl, hdemand⟩)
      | none =>
        obtain ⟨text, negated⟩ := l
        unfold demandOf at hdemand
        unfold Valuation.truth
        dsimp only at hdemand ⊢
        cases hshape : shapeOf text with
        | nullTest symbol isNull => rw [hshape] at hdemand; cases hdemand
        | comparison symbol op q => rw [hshape] at hdemand; cases hdemand
        | stringEquality symbol equal literal => rw [hshape] at hdemand; cases hdemand
        | literal value =>
          have hright : value ≠ negated := fun heq => hmeetable (.literal hl (heq ▸ hshape))
          cases value <;> cases negated <;> first | rfl | exact absurd rfl hright
        | other =>
          cases negated with
          | false => exact if_pos hl
          | true => exact if_neg fun hrequired => hmeetable (.opposite hrequired hl)

end Demands

/-! ## The assessment -/

section Folded

variable [Text.CaseMap]

theorem assess_iff {e : PredicateExpr} :
    assess e = .obviousContradiction ↔
      ∃ bs, branches e false = some bs ∧ ∀ b ∈ bs, Contradictory b := by
  simp only [← contradictionOf_isSome_iff]
  constructor
  · exact assess_flagged
  · rintro ⟨bs, hbs, hall⟩
    have hfilter : bs.filter (fun b => (contradictionOf b).isNone) = [] :=
      List.filter_eq_nil_iff.mpr fun b hb => by
        rw [Option.isNone_iff_eq_none]
        exact Option.isSome_iff_ne_none.mp (hall b hb)
    unfold assess
    rw [hbs]
    dsimp only
    rw [hfilter]
    rfl

/-- The expression is never TRUE exactly when no branch can be met as it is written. -/
theorem never_true_iff {nulls : List String} {e : PredicateExpr} :
    (∀ V : Valuation, V.Knows nulls → V.exprTruth e ≠ .true) ↔
      ∀ b ∈ expansion e false, Unmeetable nulls (asWritten b) := by
  have hbranches (V : Valuation) :
      V.exprTruth e = .true ↔ ∃ b ∈ expansion e false, Satisfied (V.truth ∘ writtenAtom) b :=
    truth_iff_expansion e false
  constructor
  · intro h b hb
    refine unmeetable_iff.mpr fun V hknows hsat => h V hknows ((hbranches V).mpr ⟨b, hb, ?_⟩)
    exact satisfied_asWritten.mp hsat
  · intro h V hknows htrue
    obtain ⟨b, hb, hsat⟩ := (hbranches V).mp htrue
    exact unmeetable_iff.mp (h b hb) V hknows (satisfied_asWritten.mpr hsat)

/-- **Contradictions of predicates.** A predicate that is assessed as an obvious contradiction is
TRUE under no valuation, exactly if the expansion gives up, or in some branch no literals exclude
each other even in capitals and single blanks, or in every branch the literals cannot be met
together as they are written. -/
theorem contradiction_sound_iff (e : PredicateExpr) :
    (assess e = .obviousContradiction → ∀ V : Valuation, V.exprTruth e ≠ .true) ↔
      Overflows e false ∨ (∃ b ∈ expansion e false, ¬ Contradictory (foldBranch b)) ∨
        ∀ b ∈ expansion e false, Unmeetable [] (asWritten b) := by
  constructor
  · intro hsound
    by_contra hnone
    rw [not_or, not_or] at hnone
    obtain ⟨hfits, hfolded, hwritten⟩ := hnone
    cases hbranches : branches e false with
    | none => exact hfits ((branches_exact e).2.mp hbranches)
    | some bs =>
      refine hwritten fun b hb => never_true_iff.mp (fun V _ => hsound ?_ V) b hb
      refine assess_iff.mpr ⟨bs, hbranches, fun b hb => ?_⟩
      rw [branches_eq_expansion e hbranches] at hb
      obtain ⟨written, hmem, rfl⟩ := List.mem_map.mp hb
      exact not_not.mp fun hfree => hfolded ⟨written, hmem, hfree⟩
  · intro h hflagged
    obtain ⟨bs, hbranches, hall⟩ := assess_iff.mp hflagged
    rcases h with hoverflows | ⟨b, hb, hfree⟩ | hwritten
    · rw [(branches_exact e).2.mpr hoverflows] at hbranches
      cases hbranches
    · have hmem : foldBranch b ∈ bs := by
        rw [branches_eq_expansion e hbranches]
        exact List.mem_map_of_mem hb
      exact absurd (hall _ hmem) hfree
    · intro V
      have hknows : V.Knows [] := by
        intro symbol hsymbol
        cases hsymbol
      exact never_true_iff.mpr hwritten V hknows

end Folded

/-- `X = 'a' AND X <> 'A'`. -/
def otherCase : PredicateExpr := .and [.atomic "X = 'a'", .atomic "X <> 'A'"]

local instance asciiSatisfiability : Text.CaseMap := Text.asciiCase

/-- Folded, the two literals are one, and the predicate is flagged; it is TRUE for `'a'`. -/
theorem other_case_flagged :
    assess otherCase = .obviousContradiction ∧
      ∃ V : Valuation, V.exprTruth otherCase = .true :=
  ⟨by decide +kernel, ⟨fun _ => .string "'a'".toList, fun _ => .unknown⟩, by decide +kernel⟩

end AtlasDb.Semantics
