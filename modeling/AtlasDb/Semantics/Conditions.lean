import AtlasDb.Analysis.Constraints
import AtlasDb.Lib.Kleene

/-!
# The meaning of conditions

A search condition is a tree of `OR`, `AND`, `NOT` and parentheses over atomic predicates; it keeps
its tokens, so that a condition text is one whose tokens are those of a tree. The Boolean shell
parser reads such a tree as it is meant (`truth_parseTokens`), provided its atoms are ones the
parser recognises the end of (`AtomTokens`): a scalar `CASE` with an `AND` in it is not.
-/

namespace AtlasDb.Semantics

open Core Lib Parsing Analysis

/-! ## Truth of expressions -/

mutual

/-- The truth of an expression, given that of its atoms by their text. -/
def exprTruth (τ : String → Truth) : PredicateExpr → Truth
  | .atomic text => τ text
  | .unknown text => τ text
  | .true => .true
  | .false => .false
  | .not e => (exprTruth τ e).not
  | .and es => allTruth τ es
  | .or es => anyTruth τ es

def allTruth (τ : String → Truth) : List PredicateExpr → Truth
  | [] => .true
  | e :: es => (exprTruth τ e).and (allTruth τ es)

def anyTruth (τ : String → Truth) : List PredicateExpr → Truth
  | [] => .false
  | e :: es => (exprTruth τ e).or (anyTruth τ es)

end

section Combine

variable (τ : String → Truth)

theorem allTruth_append (xs ys : List PredicateExpr) :
    allTruth τ (xs ++ ys) = (allTruth τ xs).and (allTruth τ ys) := by
  induction xs with
  | nil => exact (Truth.true_and _).symm
  | cons x xs ih => simp [allTruth, ih, Truth.and_assoc]

theorem anyTruth_append (xs ys : List PredicateExpr) :
    anyTruth τ (xs ++ ys) = (anyTruth τ xs).or (anyTruth τ ys) := by
  induction xs with
  | nil => exact (Truth.false_or _).symm
  | cons x xs ih => simp [anyTruth, ih, Truth.or_assoc]

theorem allTruth_conjuncts (e : PredicateExpr) : allTruth τ e.conjuncts = exprTruth τ e := by
  cases e <;> simp [PredicateExpr.conjuncts, allTruth, exprTruth]

theorem anyTruth_disjuncts (e : PredicateExpr) : anyTruth τ e.disjuncts = exprTruth τ e := by
  cases e <;> simp [PredicateExpr.disjuncts, anyTruth, exprTruth]

theorem exprTruth_combineAnd (values : List PredicateExpr) :
    exprTruth τ (.combineAnd values) = allTruth τ values := by
  have hflat : allTruth τ (values.flatMap PredicateExpr.conjuncts) = allTruth τ values := by
    induction values with
    | nil => rfl
    | cons v values ih =>
      rw [List.flatMap_cons, allTruth_append, allTruth_conjuncts, ih]
      rfl
  rw [← hflat, PredicateExpr.combineAnd]
  split
  · next e heq => simp [heq, allTruth]
  · rfl

theorem exprTruth_combineOr (values : List PredicateExpr) :
    exprTruth τ (.combineOr values) = anyTruth τ values := by
  have hflat : anyTruth τ (values.flatMap PredicateExpr.disjuncts) = anyTruth τ values := by
    induction values with
    | nil => rfl
    | cons v values ih =>
      rw [List.flatMap_cons, anyTruth_append, anyTruth_disjuncts, ih]
      rfl
  rw [← hflat, PredicateExpr.combineOr]
  split
  · next e heq => simp [heq, anyTruth]
  · rfl

end Combine

/-! ## Search conditions -/

/-- The loop of `_parse_atom` over the tokens of an atom: where it is after them, or `none` if it
stops among them. -/
def atomScan : Nat → Bool → List Token → Option (Nat × Bool)
  | depth, pending, [] => some (depth, pending)
  | depth, pending, t :: ts =>
    if t.value = "(" then atomScan (depth + 1) pending ts
    else if t.value = ")" then
      match depth with
      | 0 => none
      | depth + 1 => atomScan depth pending ts
    else if depth = 0 then
      if t.upper = "BETWEEN" then atomScan depth true ts
      else if t.upper = "AND" ∧ pending = true then atomScan depth false ts
      else if t.upper = "AND" ∨ t.upper = "OR" then none
      else atomScan depth pending ts
    else atomScan depth pending ts

/-- A keyword, in any spelling. -/
abbrev Keyword (text : String) : Type :=
  { t : Token // t.upper = text ∧ t.value ≠ "(" ∧ t.value ≠ ")" }

abbrev Parenthesis (text : String) : Type := { t : Token // t.value = text ∧ t.upper = text }

/-- The tokens of an atomic predicate: parentheses are balanced, `AND` and `OR` stand in parentheses
or belong to a `BETWEEN`, and the first token starts neither a negation nor a group. -/
abbrev AtomTokens : Type :=
  { ts : List Token // ts ≠ [] ∧ peekUpper ts ≠ some "NOT" ∧ peekValue ts ≠ some "(" ∧
    atomScan 0 false ts = some (0, false) }

mutual

inductive OrCond where
  | one (a : AndCond)
  | or (a : AndCond) (keyword : Keyword "OR") (o : OrCond)

inductive AndCond where
  | one (n : NotCond)
  | and (n : NotCond) (keyword : Keyword "AND") (a : AndCond)

inductive NotCond where
  | not (keyword : Keyword "NOT") (n : NotCond)
  | group (opening : Parenthesis "(") (o : OrCond) (closing : Parenthesis ")")
  | atom (tokens : AtomTokens)

end

/-- A search condition of the language. -/
abbrev SearchCondition : Type := OrCond

mutual

def OrCond.tokens : OrCond → List Token
  | .one a => a.tokens
  | .or a keyword o => a.tokens ++ keyword.1 :: o.tokens

def AndCond.tokens : AndCond → List Token
  | .one n => n.tokens
  | .and n keyword a => n.tokens ++ keyword.1 :: a.tokens

def NotCond.tokens : NotCond → List Token
  | .not keyword n => keyword.1 :: n.tokens
  | .group opening o closing => opening.1 :: (o.tokens ++ [closing.1])
  | .atom tokens => tokens.1

end

mutual

/-- The truth of a condition, given that of its atomic predicates. -/
def OrCond.truth (μ : List Token → Truth) : OrCond → Truth
  | .one a => a.truth μ
  | .or a _ o => (a.truth μ).or (o.truth μ)

def AndCond.truth (μ : List Token → Truth) : AndCond → Truth
  | .one n => n.truth μ
  | .and n _ a => (n.truth μ).and (a.truth μ)

def NotCond.truth (μ : List Token → Truth) : NotCond → Truth
  | .not _ n => (n.truth μ).not
  | .group _ o _ => o.truth μ
  | .atom tokens => μ tokens.1

end

mutual

/-- The atomic predicates of a condition. -/
def OrCond.atoms : OrCond → List (List Token)
  | .one a => a.atoms
  | .or a _ o => a.atoms ++ o.atoms

def AndCond.atoms : AndCond → List (List Token)
  | .one n => n.atoms
  | .and n _ a => n.atoms ++ a.atoms

def NotCond.atoms : NotCond → List (List Token)
  | .not _ n => n.atoms
  | .group _ o _ => o.atoms
  | .atom tokens => [tokens.1]

end

/-! ## The parser reads search conditions -/

/-- What may follow a complete part of a condition. -/
def Ends (rest : List Token) : Prop := atomLength 0 false rest = 0

theorem ends_nil : Ends [] := rfl

theorem ends_keyword {text : String} (k : Keyword text) (htext : text = "AND" ∨ text = "OR")
    (rest : List Token) : Ends (k.1 :: rest) := by
  obtain ⟨t, hupper, hopen, hclose⟩ := k
  simp [Ends, atomLength, hopen, hclose, hupper, htext]
  rcases htext with rfl | rfl <;> decide

theorem ends_closing (k : Parenthesis ")") (rest : List Token) : Ends (k.1 :: rest) := by
  obtain ⟨t, hvalue, hupper⟩ := k
  simp [Ends, atomLength, hvalue]

/-- An atom ends where it is written to end. -/
theorem atomLength_append {rest : List Token} (hrest : Ends rest) {depth : Nat} {pending : Bool}
    {ts : List Token} (h : atomScan depth pending ts = some (0, false)) :
    atomLength depth pending (ts ++ rest) = ts.length := by
  induction ts generalizing depth pending with
  | nil =>
    obtain ⟨rfl, rfl⟩ : depth = 0 ∧ pending = false := by simpa [atomScan] using h
    exact hrest
  | cons t ts ih =>
    simp only [atomScan] at h
    simp only [List.cons_append, atomLength, List.length_cons]
    split at h
    · next hopen => rw [if_pos hopen, ih h]
    · next hopen =>
        rw [if_neg hopen]
        split at h
        · next hclose =>
            rw [if_pos hclose]
            cases depth with
            | zero => cases h
            | succ depth => simp only [ih h]
        · next hclose =>
            rw [if_neg hclose]
            split at h
            · next hdepth =>
                rw [if_pos hdepth]
                split at h
                · next hbetween => rw [if_pos hbetween, ih h]
                · next hbetween =>
                    rw [if_neg hbetween]
                    split at h
                    · next hand => rw [if_pos hand, ih h]
                    · next hand =>
                        rw [if_neg hand]
                        split at h
                        · cases h
                        · next hor => rw [if_neg hor, ih h]
            · next hdepth => rw [if_neg hdepth, ih h]

theorem isBooleanGroup_atom {rest : List Token} {outer d final : Nat} {pending pending' : Bool}
    {ts : List Token} (h : atomScan d pending ts = some (final, pending'))
    (hrest : isBooleanGroup (outer + 1 + final) rest = true) :
    isBooleanGroup (outer + 1 + d) (ts ++ rest) = true := by
  induction ts generalizing d pending with
  | nil =>
    obtain ⟨rfl, -⟩ : d = final ∧ _ := by simpa [atomScan] using h
    exact hrest
  | cons t ts ih =>
    simp only [atomScan] at h
    simp only [List.cons_append, isBooleanGroup]
    split at h
    · next hopen => rw [if_pos hopen]; exact ih h
    · next hopen =>
        rw [if_neg hopen]
        split at h
        · next hclose =>
            rw [if_pos hclose]
            cases d with
            | zero => cases h
            | succ d => simp [ih h]
        · next hclose =>
            rw [if_neg hclose]
            have hstep : ∀ {p}, atomScan d p ts = some (final, pending') →
                isBooleanGroup (outer + 1 + d) (ts ++ rest) = true := fun h => ih h
            split at h
            · split at h
              · simp [hstep h]
              · split at h
                · simp [hstep h]
                · split at h
                  · cases h
                  · simp [hstep h]
            · simp [hstep h]

theorem isBooleanGroup_keyword {text : String} (k : Keyword text) {depth : Nat} {rest : List Token}
    (hrest : isBooleanGroup depth rest = true) : isBooleanGroup depth (k.1 :: rest) = true := by
  obtain ⟨t, -, hopen, hclose⟩ := k
  simp [isBooleanGroup, hopen, hclose, hrest]

mutual

theorem OrCond.isBooleanGroup (o : OrCond) {outer : Nat} {rest : List Token}
    (hrest : Analysis.isBooleanGroup (outer + 1) rest = true) :
    Analysis.isBooleanGroup (outer + 1) (o.tokens ++ rest) = true := by
  cases o with
  | one a => exact a.isBooleanGroup hrest
  | or a keyword o =>
    rw [OrCond.tokens, List.append_assoc]
    exact a.isBooleanGroup (isBooleanGroup_keyword keyword (o.isBooleanGroup hrest))

theorem AndCond.isBooleanGroup (a : AndCond) {outer : Nat} {rest : List Token}
    (hrest : Analysis.isBooleanGroup (outer + 1) rest = true) :
    Analysis.isBooleanGroup (outer + 1) (a.tokens ++ rest) = true := by
  cases a with
  | one n => exact n.isBooleanGroup hrest
  | and n keyword a =>
    rw [AndCond.tokens, List.append_assoc]
    exact n.isBooleanGroup (isBooleanGroup_keyword keyword (a.isBooleanGroup hrest))

theorem NotCond.isBooleanGroup (n : NotCond) {outer : Nat} {rest : List Token}
    (hrest : Analysis.isBooleanGroup (outer + 1) rest = true) :
    Analysis.isBooleanGroup (outer + 1) (n.tokens ++ rest) = true := by
  cases n with
  | not keyword n => exact isBooleanGroup_keyword keyword (n.isBooleanGroup hrest)
  | group opening o closing =>
    obtain ⟨t, ht, -⟩ := opening
    obtain ⟨t', ht', -⟩ := closing
    have hclosing : Analysis.isBooleanGroup (outer + 1 + 1) (t' :: rest) = true := by
      simp [Analysis.isBooleanGroup, ht', hrest]
    have hbody := o.isBooleanGroup hclosing
    simpa [NotCond.tokens, Analysis.isBooleanGroup, ht, List.append_assoc] using hbody
  | atom tokens =>
    have hscan := tokens.2.2.2.2
    exact isBooleanGroup_atom (d := 0) hscan hrest

end

theorem NotCond.tokens_ne_nil (n : NotCond) : n.tokens ≠ [] := by
  cases n with
  | not keyword n => exact List.cons_ne_nil _ _
  | group opening o closing => exact List.cons_ne_nil _ _
  | atom tokens => exact tokens.2.1

theorem peekUpper_append {ts : List Token} (h : ts ≠ []) (rest : List Token) :
    peekUpper (ts ++ rest) = peekUpper ts := by
  cases ts with
  | nil => exact absurd rfl h
  | cons t ts => rfl

theorem peekValue_append {ts : List Token} (h : ts ≠ []) (rest : List Token) :
    peekValue (ts ++ rest) = peekValue ts := by
  cases ts with
  | nil => exact absurd rfl h
  | cons t ts => rfl

/-- Atoms as the analysis reads them: by their rendered text. -/
def readAtoms (τ : String → Truth) (ts : List Token) : Truth := τ (renderTokens ts)

theorem parseAtom_tokens (τ : String → Truth) (tokens : AtomTokens) {rest : List Token}
    (hrest : Ends rest) :
    ∃ e, parseAtom (tokens.1 ++ rest) = (e, rest) ∧ exprTruth τ e = readAtoms τ tokens.1 := by
  obtain ⟨ts, hne, -, -, hscan⟩ := tokens
  have hlength : atomLength 0 false (ts ++ rest) = ts.length := atomLength_append hrest hscan
  have hpos : ts.length ≠ 0 := by simpa using hne
  refine ⟨.atomic (renderTokens ts), ?_, rfl⟩
  simp [parseAtom, hlength, hpos]

theorem parseAndRest_stop {fuel : Nat} {rest : List Token} (h : peekUpper rest ≠ some "AND") :
    parseAndRest fuel rest = ([], rest) := by
  cases fuel with
  | zero => rfl
  | succ fuel => simp [parseAndRest, h]

theorem parseOrRest_stop {fuel : Nat} {rest : List Token} (h : peekUpper rest ≠ some "OR") :
    parseOrRest fuel rest = ([], rest) := by
  cases fuel with
  | zero => rfl
  | succ fuel => simp [parseOrRest, h]

mutual

/-- A factor is read with its meaning. -/
theorem parseNot_tokens (τ : String → Truth) (n : NotCond) {rest : List Token} (fuel : Nat)
    (hrest : Ends rest) (hfuel : 3 * n.tokens.length + 1 ≤ fuel) :
    ∃ e, parseNot fuel (n.tokens ++ rest) = (e, rest) ∧
      exprTruth τ e = n.truth (readAtoms τ) := by
  obtain ⟨fuel, rfl⟩ : ∃ f, fuel = f + 1 := ⟨fuel - 1, by omega⟩
  cases n with
  | not keyword n =>
    simp only [NotCond.tokens, List.length_cons] at hfuel
    obtain ⟨e, hparse, htruth⟩ := parseNot_tokens τ n fuel hrest (by omega)
    refine ⟨.not e, ?_, by simp [exprTruth, htruth, NotCond.truth]⟩
    simp [NotCond.tokens, parseNot, peekUpper, keyword.2.1, hparse]
  | group opening o closing =>
    obtain ⟨t, ht, htu⟩ := opening
    simp only [NotCond.tokens, List.length_cons, List.length_append, List.length_nil] at hfuel
    have hclosing : Ends (closing.1 :: rest) := ends_closing closing rest
    have hnone : ∀ text, text ≠ ")" → peekUpper (closing.1 :: rest) ≠ some text := by
      intro text htext heq
      simp only [peekUpper, List.head?_cons, Option.map_some, closing.2.2, Option.some.injEq] at heq
      exact htext heq.symm
    obtain ⟨e, hparse, htruth⟩ := parseOr_tokens τ o fuel hclosing (hnone "AND" (by decide))
      (hnone "OR" (by decide)) (by omega)
    have hgroup : isBooleanGroup 0 (t :: (o.tokens ++ closing.1 :: rest)) = true := by
      have hend : isBooleanGroup 1 (closing.1 :: rest) = true := by
        simp [isBooleanGroup, closing.2.1]
      have hbody := @OrCond.isBooleanGroup o 0 _ hend
      simpa [isBooleanGroup, ht] using hbody
    refine ⟨e, ?_, by simpa [NotCond.truth] using htruth⟩
    have hnot : t.upper ≠ "NOT" := by rw [htu]; decide
    simp [NotCond.tokens, parseNot, peekUpper, peekValue, hnot, ht, hgroup, hparse, closing.2.1]
  | atom tokens =>
    obtain ⟨e, hparse, htruth⟩ := parseAtom_tokens τ tokens hrest
    refine ⟨e, ?_, by simpa [NotCond.truth] using htruth⟩
    obtain ⟨ts, hne, hnot, hopen, hscan⟩ := tokens
    simp only [NotCond.tokens, parseNot, peekUpper_append hne, peekValue_append hne, hnot, hopen,
      if_false, false_and]
    exact hparse

theorem parseAndTerms_tokens (τ : String → Truth) (a : AndCond) {rest : List Token} (fuel : Nat)
    (hrest : Ends rest) (hand : peekUpper rest ≠ some "AND")
    (hfuel : 3 * a.tokens.length + 1 ≤ fuel) :
    ∃ e es after, parseNot fuel (a.tokens ++ rest) = (e, after) ∧
      parseAndRest fuel after = (es, rest) ∧ allTruth τ (e :: es) = a.truth (readAtoms τ) := by
  cases a with
  | one n =>
    obtain ⟨e, hparse, htruth⟩ := parseNot_tokens τ n fuel hrest hfuel
    exact ⟨e, [], rest, hparse, parseAndRest_stop hand, by simp [allTruth, htruth, AndCond.truth]⟩
  | and n keyword a =>
    simp only [AndCond.tokens, List.length_append, List.length_cons] at hfuel
    obtain ⟨fuel, rfl⟩ : ∃ f, fuel = f + 1 := ⟨fuel - 1, by omega⟩
    have hkeyword := ends_keyword keyword (.inl rfl) (a.tokens ++ rest)
    obtain ⟨e, hparse, htruth⟩ := parseNot_tokens τ n (fuel + 1) hkeyword (by omega)
    obtain ⟨e', es, after, hnext, hmore, hterms⟩ :=
      parseAndTerms_tokens τ a fuel hrest hand (by omega)
    refine ⟨e, e' :: es, _, by simpa [AndCond.tokens] using hparse, ?_, ?_⟩
    · simp [parseAndRest, peekUpper, keyword.2.1, hnext, hmore]
    · rw [allTruth, hterms, htruth, AndCond.truth]

theorem parseAnd_tokens (τ : String → Truth) (a : AndCond) {rest : List Token} (fuel : Nat)
    (hrest : Ends rest) (hand : peekUpper rest ≠ some "AND")
    (hfuel : 3 * a.tokens.length + 2 ≤ fuel) :
    ∃ e, parseAnd fuel (a.tokens ++ rest) = (e, rest) ∧
      exprTruth τ e = a.truth (readAtoms τ) := by
  obtain ⟨fuel, rfl⟩ : ∃ f, fuel = f + 1 := ⟨fuel - 1, by omega⟩
  obtain ⟨e, es, after, hparse, hmore, htruth⟩ :=
    parseAndTerms_tokens τ a fuel hrest hand (by omega)
  exact
    ⟨.combineAnd (e :: es), by simp [parseAnd, hparse, hmore], by rw [exprTruth_combineAnd, htruth]⟩

theorem parseOrTerms_tokens (τ : String → Truth) (o : OrCond) {rest : List Token} (fuel : Nat)
    (hrest : Ends rest) (hand : peekUpper rest ≠ some "AND") (hor : peekUpper rest ≠ some "OR")
    (hfuel : 3 * o.tokens.length + 2 ≤ fuel) :
    ∃ e es after, parseAnd fuel (o.tokens ++ rest) = (e, after) ∧
      parseOrRest fuel after = (es, rest) ∧ anyTruth τ (e :: es) = o.truth (readAtoms τ) := by
  cases o with
  | one a =>
    obtain ⟨e, hparse, htruth⟩ := parseAnd_tokens τ a fuel hrest hand hfuel
    exact ⟨e, [], rest, hparse, parseOrRest_stop hor, by simp [anyTruth, htruth, OrCond.truth]⟩
  | or a keyword o =>
    simp only [OrCond.tokens, List.length_append, List.length_cons] at hfuel
    obtain ⟨fuel, rfl⟩ : ∃ f, fuel = f + 1 := ⟨fuel - 1, by omega⟩
    have hkeyword := ends_keyword keyword (.inr rfl) (o.tokens ++ rest)
    have hnotAnd : peekUpper (keyword.1 :: (o.tokens ++ rest)) ≠ some "AND" := by
      simp [peekUpper, keyword.2.1]
    obtain ⟨e, hparse, htruth⟩ := parseAnd_tokens τ a (fuel + 1) hkeyword hnotAnd (by omega)
    obtain ⟨e', es, after, hnext, hmore, hterms⟩ :=
      parseOrTerms_tokens τ o fuel hrest hand hor (by omega)
    refine ⟨e, e' :: es, _, by simpa [OrCond.tokens] using hparse, ?_, ?_⟩
    · simp [parseOrRest, peekUpper, keyword.2.1, hnext, hmore]
    · rw [anyTruth, hterms, htruth, OrCond.truth]

theorem parseOr_tokens (τ : String → Truth) (o : OrCond) {rest : List Token} (fuel : Nat)
    (hrest : Ends rest) (hand : peekUpper rest ≠ some "AND") (hor : peekUpper rest ≠ some "OR")
    (hfuel : 3 * o.tokens.length + 3 ≤ fuel) :
    ∃ e, parseOr fuel (o.tokens ++ rest) = (e, rest) ∧
      exprTruth τ e = o.truth (readAtoms τ) := by
  obtain ⟨fuel, rfl⟩ : ∃ f, fuel = f + 1 := ⟨fuel - 1, by omega⟩
  obtain ⟨e, es, after, hparse, hmore, htruth⟩ :=
    parseOrTerms_tokens τ o fuel hrest hand hor (by omega)
  exact
    ⟨.combineOr (e :: es), by simp [parseOr, hparse, hmore], by rw [exprTruth_combineOr, htruth]⟩

end

theorem OrCond.tokens_ne_nil (o : OrCond) : o.tokens ≠ [] := by
  have hand : ∀ a : AndCond, a.tokens ≠ [] := by
    intro a
    cases a with
    | one n => exact n.tokens_ne_nil
    | and n keyword a => simp [AndCond.tokens]
  cases o with
  | one a => exact hand a
  | or a keyword o => simp [OrCond.tokens]

theorem truth_parseTokens (τ : String → Truth) (o : OrCond) :
    exprTruth τ (parseTokens o.tokens) = o.truth (readAtoms τ) := by
  obtain ⟨e, hparse, htruth⟩ := parseOr_tokens τ o (parserFuel o.tokens) ends_nil
    (by simp [peekUpper]) (by simp [peekUpper]) (by simp [parserFuel])
  rw [List.append_nil] at hparse
  simp [parseTokens, o.tokens_ne_nil, hparse, htruth]

end AtlasDb.Semantics
