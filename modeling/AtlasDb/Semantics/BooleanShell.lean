import AtlasDb.Semantics.Conditions

/-!
# The Boolean shell and the conditions of the language

`_BooleanExpressionParser` decides by lookahead which parentheses group conditions, and where an
atomic predicate ends. Conditions here are trees over predicates with any scalar operands; the
parser keeps the meaning of those whose predicates it can see the beginning and the end of
(`truth_parseTokens`), and takes a parenthesised operand at the beginning of a predicate for a
group, and an `AND` inside a scalar `CASE` for one between predicates.
-/

namespace AtlasDb.Semantics

open Core Lib Parsing Analysis

/-! ## Conditions over any predicates -/

/-- A token as the scanner makes it: folded or kept as it is, and not blank. -/
def Lexed (t : Token) : Prop :=
  (t.upper = t.value ∨ t.upper = Text.upperString t.value) ∧
    ∃ c ∈ t.value.toList, Text.isSpace c = false

instance (t : Token) : Decidable (Lexed t) :=
  decidable_of_iff
    ((t.upper = t.value ∨ t.upper = Text.upperString t.value) ∧
      (t.value.toList.any fun c => !Text.isSpace c) = true)
    (by simp [Lexed])

/-- What follows the parenthesis that closes more than is opened, with that parenthesis. -/
def closing : Nat → List Token → List Token
  | _, [] => []
  | depth, t :: ts =>
    if t.value = "(" then closing (depth + 1) ts
    else if t.value = ")" then
      match depth with
      | 0 => t :: ts
      | depth + 1 => closing depth ts
    else closing depth ts

/-- The tokens of a predicate: parentheses and scalar `CASE`s are closed, and outside of them an
`AND` belongs to a `BETWEEN` and no `OR` stands. The numbers count what is open. -/
def predicateScan : Nat → Nat → Bool → List Token → Bool
  | depth, cases, pending, [] => depth = 0 ∧ cases = 0 ∧ pending = false
  | depth, cases, pending, t :: ts =>
    if t.value = "(" then predicateScan (depth + 1) cases pending ts
    else if t.value = ")" then
      match depth with
      | 0 => false
      | depth + 1 => predicateScan depth cases pending ts
    else if depth ≠ 0 then predicateScan depth cases pending ts
    else if t.upper = "CASE" then predicateScan depth (cases + 1) pending ts
    else if t.upper = "END" then
      match cases with
      | 0 => false
      | cases + 1 => predicateScan depth cases pending ts
    else if cases ≠ 0 then predicateScan depth cases pending ts
    else if t.upper = "BETWEEN" then predicateScan depth cases true ts
    else if t.upper = "AND" then pending && predicateScan depth cases false ts
    else if t.upper = "OR" then false
    else predicateScan depth cases pending ts

/-- A keyword of the scanner. -/
abbrev Word (text : String) : Type := { k : Keyword text // Lexed k.1 }

/-- A predicate; its operands may be any scalar expressions. It is not an expression in parentheses:
such a one is a group. -/
structure Predicate where
  tokens : List Token
  lexed : ∀ t ∈ tokens, Lexed t
  nonempty : tokens ≠ []
  no_negation : peekUpper tokens ≠ some "NOT"
  well_formed : predicateScan 0 0 false tokens = true
  no_group : peekValue tokens = some "(" → (closing 0 tokens.tail).tail ≠ []

mutual

/-- A condition in the precedence of the language: `NOT` over `AND` over `OR`. -/
inductive Disjunction where
  | one (c : Conjunction)
  | or (c : Conjunction) (keyword : Word "OR") (d : Disjunction)

inductive Conjunction where
  | one (f : Factor)
  | and (f : Factor) (keyword : Word "AND") (c : Conjunction)

inductive Factor where
  | not (keyword : Word "NOT") (f : Factor)
  | group (opening : Parenthesis "(") (d : Disjunction) (closing : Parenthesis ")")
  | predicate (p : Predicate)

end

mutual

def Disjunction.tokens : Disjunction → List Token
  | .one c => c.tokens
  | .or c keyword d => c.tokens ++ keyword.1.1 :: d.tokens

def Conjunction.tokens : Conjunction → List Token
  | .one f => f.tokens
  | .and f keyword c => f.tokens ++ keyword.1.1 :: c.tokens

def Factor.tokens : Factor → List Token
  | .not keyword f => keyword.1.1 :: f.tokens
  | .group opening d closing => opening.1 :: (d.tokens ++ [closing.1])
  | .predicate p => p.tokens

end

mutual

/-- The truth of a condition, given that of its predicates. -/
def Disjunction.truth (μ : List Token → Truth) : Disjunction → Truth
  | .one c => c.truth μ
  | .or c _ d => (c.truth μ).or (d.truth μ)

def Conjunction.truth (μ : List Token → Truth) : Conjunction → Truth
  | .one f => f.truth μ
  | .and f _ c => (f.truth μ).and (c.truth μ)

def Factor.truth (μ : List Token → Truth) : Factor → Truth
  | .not _ f => (f.truth μ).not
  | .group _ d _ => d.truth μ
  | .predicate p => μ p.tokens

end

mutual

def Disjunction.predicates : Disjunction → List Predicate
  | .one c => c.predicates
  | .or c _ d => c.predicates ++ d.predicates

def Conjunction.predicates : Conjunction → List Predicate
  | .one f => f.predicates
  | .and f _ c => f.predicates ++ c.predicates

def Factor.predicates : Factor → List Predicate
  | .not _ f => f.predicates
  | .group _ d _ => d.predicates
  | .predicate p => [p]

end

/-! ## Predicates the parser sees the ends of -/

/-- The scan for the end of the predicate goes over all of its tokens. -/
def Whole (p : Predicate) : Prop := atomScan 0 false p.tokens = some (0, false)

/-- It goes over all of them, and the predicate does not begin with a parenthesis. -/
def Plain (p : Predicate) : Prop := peekValue p.tokens ≠ some "(" ∧ Whole p

instance (p : Predicate) : Decidable (Whole p) := by unfold Whole; infer_instance

instance (p : Predicate) : Decidable (Plain p) := by unfold Plain; infer_instance

/-- The predicate as an atom of a search condition. -/
def Plain.atom {p : Predicate} (h : Plain p) : AtomTokens :=
  ⟨p.tokens, p.nonempty, p.no_negation, h.1, h.2⟩

mutual

theorem Disjunction.exists_orCond (d : Disjunction) (h : ∀ p ∈ d.predicates, Plain p) :
    ∃ o : OrCond, o.tokens = d.tokens ∧ ∀ μ, o.truth μ = d.truth μ := by
  cases d with
  | one c =>
    obtain ⟨a, htokens, htruth⟩ := c.exists_andCond h
    exact ⟨.one a, htokens, htruth⟩
  | or c keyword d =>
    rw [Disjunction.predicates, List.forall_mem_append] at h
    obtain ⟨a, hatokens, hatruth⟩ := c.exists_andCond h.1
    obtain ⟨o, hotokens, hotruth⟩ := d.exists_orCond h.2
    refine ⟨.or a keyword.1 o, ?_, fun μ => ?_⟩
    · rw [OrCond.tokens, Disjunction.tokens, hatokens, hotokens]
    · rw [OrCond.truth, Disjunction.truth, hatruth, hotruth]

theorem Conjunction.exists_andCond (c : Conjunction) (h : ∀ p ∈ c.predicates, Plain p) :
    ∃ a : AndCond, a.tokens = c.tokens ∧ ∀ μ, a.truth μ = c.truth μ := by
  cases c with
  | one f =>
    obtain ⟨n, htokens, htruth⟩ := f.exists_notCond h
    exact ⟨.one n, htokens, htruth⟩
  | and f keyword c =>
    rw [Conjunction.predicates, List.forall_mem_append] at h
    obtain ⟨n, hntokens, hntruth⟩ := f.exists_notCond h.1
    obtain ⟨a, hatokens, hatruth⟩ := c.exists_andCond h.2
    refine ⟨.and n keyword.1 a, ?_, fun μ => ?_⟩
    · rw [AndCond.tokens, Conjunction.tokens, hntokens, hatokens]
    · rw [AndCond.truth, Conjunction.truth, hntruth, hatruth]

theorem Factor.exists_notCond (f : Factor) (h : ∀ p ∈ f.predicates, Plain p) :
    ∃ n : NotCond, n.tokens = f.tokens ∧ ∀ μ, n.truth μ = f.truth μ := by
  cases f with
  | not keyword f =>
    obtain ⟨n, htokens, htruth⟩ := f.exists_notCond h
    refine ⟨.not keyword.1 n, ?_, fun μ => ?_⟩
    · rw [NotCond.tokens, Factor.tokens, htokens]
    · rw [NotCond.truth, Factor.truth, htruth]
  | group opening d closing =>
    obtain ⟨o, htokens, htruth⟩ := d.exists_orCond h
    refine ⟨.group opening o closing, ?_, fun μ => ?_⟩
    · rw [NotCond.tokens, Factor.tokens, htokens]
    · rw [NotCond.truth, Factor.truth, htruth]
  | predicate p => exact ⟨.atom (h p List.mem_cons_self).atom, rfl, fun μ => rfl⟩

end

theorem Disjunction.truth_parseTokens (d : Disjunction) (h : ∀ p ∈ d.predicates, Plain p)
    (τ : String → Truth) :
    exprTruth τ (parseTokens d.tokens) = d.truth (readAtoms τ) := by
  obtain ⟨o, htokens, htruth⟩ := d.exists_orCond h
  rw [← htokens, Semantics.truth_parseTokens, htruth]

/-! ## What the parser leaves -/

/-- The parser cannot go on here: no connective follows and no group closes. -/
def Stuck (tokens : List Token) : Prop :=
  ∃ t ts, tokens = t :: ts ∧ t.value ≠ ")" ∧ t.upper ≠ "AND" ∧ t.upper ≠ "OR"

variable {tokens : List Token} {t : Token}

theorem Stuck.peekUpper (h : Stuck tokens) :
    peekUpper tokens ≠ some "AND" ∧ peekUpper tokens ≠ some "OR" := by
  obtain ⟨t, ts, rfl, -, hand, hor⟩ := h
  simp [Analysis.peekUpper, hand, hor]

theorem Stuck.peekValue (h : Stuck tokens) :
    peekValue tokens ≠ some ")" := by
  obtain ⟨t, ts, rfl, hclose, -⟩ := h
  simp [Analysis.peekValue, hclose]

theorem stuck_or_closes (hand : peekUpper tokens ≠ some "AND")
    (hor : peekUpper tokens ≠ some "OR") (hclose : peekValue tokens ≠ some ")") :
    Stuck tokens ∨ tokens = [] := by
  cases tokens with
  | nil => exact .inr rfl
  | cons t ts =>
    simp only [peekUpper, peekValue, List.head?_cons, Option.map_some, ne_eq,
      Option.some.injEq] at hand hor hclose
    exact .inl ⟨t, ts, rfl, hclose, hand, hor⟩

theorem Lexed.not_parenthesis (h : Lexed t) (hopen : t.upper ≠ "(")
    (hclose : t.upper ≠ ")") : t.value ≠ "(" ∧ t.value ≠ ")" := by
  constructor
  · rintro heq
    rcases h.1 with hupper | hupper
    · exact hopen (hupper.trans heq)
    · exact hopen (hupper.trans (by rw [heq]; decide))
  · rintro heq
    rcases h.1 with hupper | hupper
    · exact hclose (hupper.trans heq)
    · exact hclose (hupper.trans (by rw [heq]; decide))

theorem closing_succ (depth : Nat) (tokens : List Token) :
    closing (depth + 1) tokens = closing 0 (closing depth tokens).tail := by
  induction tokens generalizing depth with
  | nil => rfl
  | cons t ts ih =>
    simp only [closing]
    split
    · exact ih (depth + 1)
    · split
      · cases depth with
        | zero => rfl
        | succ depth => exact ih depth
      · exact ih depth

theorem closing_atomLength (depth : Nat) (pending : Bool) (tokens : List Token) :
    closing 0 (tokens.drop (atomLength depth pending tokens)) = closing depth tokens := by
  induction tokens generalizing depth pending with
  | nil => rfl
  | cons t ts ih =>
    simp only [atomLength, closing]
    split
    · exact ih _ _
    · next hopen =>
        split
        · next hclose =>
            cases depth with
            | zero => simp [closing, hclose]
            | succ depth => exact ih _ _
        · next hclose =>
            split
            · next hdepth =>
                split
                · exact ih _ _
                · split
                  · exact ih _ _
                  · split
                    · simp [closing, hopen, hclose, hdepth]
                    · exact ih _ _
            · exact ih _ _

/-- What a part of the parser leaves: a rest of its tokens, at which it is stuck or around which the
same parenthesis closes. -/
def Leaves (tokens rest : List Token) : Prop :=
  rest <:+ tokens ∧ (Stuck rest ∨ closing 0 rest = closing 0 tokens)

theorem Leaves.refl (tokens : List Token) : Leaves tokens tokens :=
  ⟨List.suffix_refl _, .inr rfl⟩

theorem Leaves.trans {a b c : List Token} (hab : Leaves a b) (hbc : Leaves b c)
    (hstuck : Stuck b → c = b) : Leaves a c := by
  refine ⟨hbc.1.trans hab.1, ?_⟩
  rcases hab.2 with hb | hb
  · exact .inl (by rwa [hstuck hb])
  · exact hbc.2.imp_right fun hc => hc.trans hb

theorem Leaves.cons {tokens rest : List Token} (h : Leaves tokens rest)
    (hopen : t.value ≠ "(") (hclose : t.value ≠ ")") : Leaves (t :: tokens) rest := by
  refine ⟨h.1.trans (List.suffix_cons _ _), h.2.imp_right fun hrest => ?_⟩
  rw [hrest, closing, if_neg hopen, if_neg hclose]

theorem lexed_of_suffix {tokens rest : List Token} (h : ∀ t ∈ tokens, Lexed t)
    (hrest : rest <:+ tokens) : ∀ t ∈ rest, Lexed t :=
  fun t ht => h t (hrest.subset ht)

theorem parseAtom_leaves (tokens : List Token) : Leaves tokens (parseAtom tokens).2 := by
  unfold parseAtom
  by_cases hn : atomLength 0 false tokens = 0
  · simpa [hn] using Leaves.refl tokens
  · simp only [hn, if_false]
    exact ⟨List.drop_suffix _ _, .inr (closing_atomLength 0 false tokens)⟩

/-- The five parts of the parser, with enough fuel for their tokens. -/
structure PartsLeave (fuel : Nat) : Prop where
  not : ∀ tokens, (∀ t ∈ tokens, Lexed t) → 3 * tokens.length + 1 ≤ fuel →
    Leaves tokens (parseNot fuel tokens).2
  andRest : ∀ tokens, (∀ t ∈ tokens, Lexed t) → 3 * tokens.length + 1 ≤ fuel →
    Leaves tokens (parseAndRest fuel tokens).2 ∧
      peekUpper (parseAndRest fuel tokens).2 ≠ some "AND"
  and : ∀ tokens, (∀ t ∈ tokens, Lexed t) → 3 * tokens.length + 2 ≤ fuel →
    Leaves tokens (parseAnd fuel tokens).2 ∧ peekUpper (parseAnd fuel tokens).2 ≠ some "AND"
  orRest : ∀ tokens, (∀ t ∈ tokens, Lexed t) → 3 * tokens.length + 2 ≤ fuel →
    peekUpper tokens ≠ some "AND" →
    Leaves tokens (parseOrRest fuel tokens).2 ∧
      peekUpper (parseOrRest fuel tokens).2 ≠ some "AND" ∧
      peekUpper (parseOrRest fuel tokens).2 ≠ some "OR"
  or : ∀ tokens, (∀ t ∈ tokens, Lexed t) → 3 * tokens.length + 3 ≤ fuel →
    Leaves tokens (parseOr fuel tokens).2 ∧ peekUpper (parseOr fuel tokens).2 ≠ some "AND" ∧
      peekUpper (parseOr fuel tokens).2 ≠ some "OR"

theorem eq_nil_or_cons_of_peek {text : String}
    (h : peekUpper tokens = some text) : ∃ t ts, tokens = t :: ts ∧ t.upper = text := by
  cases tokens with
  | nil => simp [peekUpper] at h
  | cons t ts => exact ⟨t, ts, rfl, by simpa [peekUpper] using h⟩

theorem leaves_group {ts rest : List Token} (hopen : t.value = "(")
    (h : Leaves ts rest) (hand : peekUpper rest ≠ some "AND") (hor : peekUpper rest ≠ some "OR") :
    Leaves (t :: ts) (if peekValue rest = some ")" then rest.tail else rest) := by
  have hcons : closing 0 (t :: ts) = closing 0 (closing 0 ts).tail := by
    rw [closing, if_pos hopen, closing_succ]
  by_cases hclose : peekValue rest = some ")"
  · rw [if_pos hclose]
    have hclosed : closing 0 rest = rest := by
      cases rest with
      | nil => rfl
      | cons u us =>
        have hu : u.value = ")" := by simpa [peekValue] using hclose
        simp [closing, hu]
    refine ⟨(List.tail_suffix rest).trans (h.1.trans (List.suffix_cons _ _)), .inr ?_⟩
    rcases h.2 with hstuck | heq
    · exact absurd hclose hstuck.peekValue
    · rw [hcons, ← heq, hclosed]
  · rw [if_neg hclose]
    refine ⟨h.1.trans (List.suffix_cons _ _), ?_⟩
    rcases stuck_or_closes hand hor hclose with hstuck | rfl
    · exact .inl hstuck
    · rcases h.2 with hstuck | heq
      · exact .inl hstuck
      · refine .inr ?_
        rw [hcons, ← heq]
        rfl

/-- What the parser leaves is a rest of its tokens. -/
theorem partsLeave (fuel : Nat) : PartsLeave fuel := by
  induction fuel with
  | zero =>
    constructor
    all_goals intro tokens hlexed hfuel; omega
  | succ fuel ih =>
    constructor
    case not =>
      intro tokens hlexed hfuel
      rw [parseNot]
      split
      · next hnot =>
          obtain ⟨t, ts, rfl, ht⟩ := eq_nil_or_cons_of_peek hnot
          have hparen := (hlexed t List.mem_cons_self).not_parenthesis (by rw [ht]; decide)
            (by rw [ht]; decide)
          simp only [List.length_cons] at hfuel
          exact (ih.not ts (fun u hu => hlexed u (List.mem_cons_of_mem _ hu)) (by omega)).cons
            hparen.1 hparen.2
      · split
        · next hgroup =>
            cases tokens with
            | nil => simp [peekValue] at hgroup
            | cons t ts =>
              have hopen : t.value = "(" := by simpa [peekValue] using hgroup.1
              simp only [List.length_cons] at hfuel
              obtain ⟨hleaves, hand, hor⟩ :=
                ih.or ts (fun u hu => hlexed u (List.mem_cons_of_mem _ hu)) (by omega)
              exact leaves_group hopen hleaves hand hor
        · exact parseAtom_leaves tokens
    case andRest =>
      intro tokens hlexed hfuel
      by_cases hand : peekUpper tokens = some "AND"
      · obtain ⟨t, ts, rfl, ht⟩ := eq_nil_or_cons_of_peek hand
        have hparen := (hlexed t List.mem_cons_self).not_parenthesis (by rw [ht]; decide)
          (by rw [ht]; decide)
        have hts : ∀ u ∈ ts, Lexed u := fun u hu => hlexed u (List.mem_cons_of_mem _ hu)
        simp only [List.length_cons] at hfuel
        have hnext := ih.not ts hts (by omega)
        have hlength := hnext.1.length_le
        have hrest := ih.andRest (parseNot fuel ts).2 (lexed_of_suffix hts hnext.1) (by omega)
        simp only [parseAndRest, hand, if_true, List.tail_cons]
        refine ⟨(hnext.trans hrest.1 fun hstuck => ?_).cons hparen.1 hparen.2, hrest.2⟩
        rw [parseAndRest_stop hstuck.peekUpper.1]
      · rw [parseAndRest_stop hand]
        exact ⟨Leaves.refl tokens, hand⟩
    case and =>
      intro tokens hlexed hfuel
      have hfirst := ih.not tokens hlexed (by omega)
      have hlength := hfirst.1.length_le
      have hrest := ih.andRest (parseNot fuel tokens).2 (lexed_of_suffix hlexed hfirst.1)
        (by omega)
      rw [parseAnd]
      refine ⟨hfirst.trans hrest.1 fun hstuck => ?_, hrest.2⟩
      rw [parseAndRest_stop hstuck.peekUpper.1]
    case orRest =>
      intro tokens hlexed hfuel hand
      by_cases hor : peekUpper tokens = some "OR"
      · obtain ⟨t, ts, rfl, ht⟩ := eq_nil_or_cons_of_peek hor
        have hparen := (hlexed t List.mem_cons_self).not_parenthesis (by rw [ht]; decide)
          (by rw [ht]; decide)
        have hts : ∀ u ∈ ts, Lexed u := fun u hu => hlexed u (List.mem_cons_of_mem _ hu)
        simp only [List.length_cons] at hfuel
        obtain ⟨hnext, hnextAnd⟩ := ih.and ts hts (by omega)
        have hlength := hnext.1.length_le
        have hrest := ih.orRest (parseAnd fuel ts).2 (lexed_of_suffix hts hnext.1) (by omega)
          hnextAnd
        simp only [parseOrRest, hor, if_true, List.tail_cons]
        refine ⟨(hnext.trans hrest.1 fun hstuck => ?_).cons hparen.1 hparen.2, hrest.2⟩
        rw [parseOrRest_stop hstuck.peekUpper.2]
      · rw [parseOrRest_stop hor]
        exact ⟨Leaves.refl tokens, hand, hor⟩
    case or =>
      intro tokens hlexed hfuel
      obtain ⟨hfirst, hfirstAnd⟩ := ih.and tokens hlexed (by omega)
      have hlength := hfirst.1.length_le
      have hrest := ih.orRest (parseAnd fuel tokens).2 (lexed_of_suffix hlexed hfirst.1)
        (by omega) hfirstAnd
      rw [parseOr]
      refine ⟨hfirst.trans hrest.1 fun hstuck => ?_, hrest.2⟩
      rw [parseOrRest_stop hstuck.peekUpper.2]

/-! ## A parenthesis at the beginning -/

theorem closing_append {depth : Nat} (h : closing depth tokens ≠ [])
    (rest : List Token) : closing depth (tokens ++ rest) = closing depth tokens ++ rest := by
  induction tokens generalizing depth with
  | nil => exact absurd rfl h
  | cons t ts ih =>
    simp only [closing, List.cons_append] at h ⊢
    split
    · next hopen =>
        rw [if_pos hopen] at h
        exact ih h
    · next hopen =>
        rw [if_neg hopen] at h
        split
        · next hclose =>
            rw [if_pos hclose] at h
            cases depth with
            | zero => rfl
            | succ depth => exact ih h
        · next hclose =>
            rw [if_neg hclose] at h
            exact ih h

theorem isBooleanGroup_of_closing {depth : Nat}
    (h : closing depth tokens ≠ []) (rest : List Token) :
    isBooleanGroup (depth + 1) (tokens ++ rest) = true := by
  induction tokens generalizing depth with
  | nil => exact absurd rfl h
  | cons t ts ih =>
    simp only [closing, List.cons_append, isBooleanGroup] at h ⊢
    split
    · next hopen =>
        rw [if_pos hopen] at h
        exact ih h
    · next hopen =>
        rw [if_neg hopen] at h
        split
        · next hclose =>
            rw [if_pos hclose] at h
            cases depth with
            | zero => simp
            | succ depth => simp [ih h]
        · next hclose =>
            rw [if_neg hclose] at h
            simp [ih h]

theorem predicateScan_closing {depth : Nat}
    (h : predicateScan (depth + 1) 0 false tokens = true) (hclosing : closing depth tokens ≠ []) :
    predicateScan 0 0 false (closing depth tokens).tail = true := by
  induction tokens generalizing depth with
  | nil => exact absurd rfl hclosing
  | cons t ts ih =>
    simp only [closing, predicateScan] at h hclosing ⊢
    split
    · next hopen =>
        rw [if_pos hopen] at h hclosing
        exact ih h hclosing
    · next hopen =>
        rw [if_neg hopen] at h hclosing
        split
        · next hclose =>
            rw [if_pos hclose] at h hclosing
            cases depth with
            | zero => exact h
            | succ depth => exact ih h hclosing
        · next hclose =>
            rw [if_neg hclose] at h hclosing
            rw [if_pos (Nat.succ_ne_zero depth)] at h
            exact ih h hclosing

theorem stuck_of_predicateScan (h : predicateScan 0 0 false tokens = true)
    (hne : tokens ≠ []) (hlexed : ∀ t ∈ tokens, Lexed t) : Stuck tokens := by
  cases tokens with
  | nil => exact absurd rfl hne
  | cons t ts =>
    have ht := hlexed t List.mem_cons_self
    have hclose : t.value ≠ ")" := by
      intro heq
      simp [predicateScan, heq] at h
    have hkeyword : ∀ text, text = "AND" ∨ text = "OR" → t.upper ≠ text := by
      intro text htext heq
      have hopen : t.value ≠ "(" := by
        rw [← heq] at htext
        exact (ht.not_parenthesis (by rcases htext with h | h <;> rw [h] <;> decide)
          (by rcases htext with h | h <;> rw [h] <;> decide)).1
      rcases htext with rfl | rfl <;> simp [predicateScan, hopen, hclose, heq] at h
    exact ⟨t, ts, rfl, hclose, hkeyword "AND" (.inl rfl), hkeyword "OR" (.inr rfl)⟩

theorem Stuck.append (h : Stuck tokens) (rest : List Token) :
    Stuck (tokens ++ rest) := by
  obtain ⟨t, ts, rfl, h⟩ := h
  exact ⟨t, ts ++ rest, rfl, h⟩

theorem closing_suffix (depth : Nat) (tokens : List Token) : closing depth tokens <:+ tokens := by
  induction tokens generalizing depth with
  | nil => exact List.suffix_refl _
  | cons t ts ih =>
    have hcons : ∀ d, closing d ts <:+ t :: ts := fun d => (ih d).trans (List.suffix_cons t ts)
    simp only [closing]
    split
    · exact hcons _
    · split
      · cases depth with
        | zero => exact List.suffix_refl _
        | succ depth => exact hcons _
      · exact hcons _

/-- The operand in parentheses at the beginning of a predicate is read as a group, and the parser is
stuck after it. -/
theorem parseNot_stuck {p : Predicate} (hopen : peekValue p.tokens = some "(")
    {rest : List Token} (hlexed : ∀ t ∈ rest, Lexed t) {fuel : Nat}
    (hfuel : 3 * (p.tokens ++ rest).length + 1 ≤ fuel) :
    Stuck (parseNot fuel (p.tokens ++ rest)).2 := by
  obtain ⟨fuel, rfl⟩ : ∃ f, fuel = f + 1 := ⟨fuel - 1, by omega⟩
  have htail := p.no_group hopen
  have hscan := p.well_formed
  have hlexedAll := p.lexed
  generalize p.tokens = tokens at hopen hfuel htail hscan hlexedAll ⊢
  cases tokens with
  | nil => simp [peekValue] at hopen
  | cons t ts =>
    have ht : t.value = "(" := by simpa [peekValue] using hopen
    have hclosing : closing 0 ts ≠ [] := by
      intro heq
      rw [List.tail_cons, heq] at htail
      exact htail rfl
    have hts : ∀ u ∈ ts, Lexed u := fun u hu => hlexedAll u (List.mem_cons_of_mem _ hu)
    have hlexedTs : ∀ u ∈ ts ++ rest, Lexed u := List.forall_mem_append.2 ⟨hts, hlexed⟩
    simp only [predicateScan, ht, if_true] at hscan
    have hmore : Stuck (closing 0 ts).tail :=
      stuck_of_predicateScan (predicateScan_closing hscan hclosing) htail
        (lexed_of_suffix hts ((List.tail_suffix _).trans (closing_suffix 0 ts)))
    have hnot : peekUpper (t :: ts ++ rest) ≠ some "NOT" := by
      intro heq
      have hupper : t.upper = "NOT" := by simpa [peekUpper] using heq
      exact ((hlexedAll t List.mem_cons_self).not_parenthesis (by rw [hupper]; decide)
        (by rw [hupper]; decide)).1 ht
    have hgroup : isBooleanGroup 0 (t :: ts ++ rest) = true := by
      simpa [isBooleanGroup, ht] using isBooleanGroup_of_closing hclosing rest
    simp only [List.cons_append, List.length_cons] at hfuel
    obtain ⟨hleaves, hand, hor⟩ := (partsLeave fuel).or (ts ++ rest) hlexedTs (by omega)
    have hvalue : peekValue (t :: ts ++ rest) = some "(" := by simp [peekValue, ht]
    rw [parseNot, if_neg hnot, if_pos ⟨hvalue, hgroup⟩]
    show Stuck (if peekValue (parseOr fuel (ts ++ rest)).2 = some ")" then
      (parseOr fuel (ts ++ rest)).2.tail else (parseOr fuel (ts ++ rest)).2)
    generalize (parseOr fuel (ts ++ rest)).2 = left at hleaves hand hor
    have hwhole := closing_append hclosing rest
    by_cases hclose : peekValue left = some ")"
    · rw [if_pos hclose]
      rcases hleaves.2 with hstuck | heq
      · exact absurd hclose hstuck.peekValue
      · have hleft : closing 0 left = left := by
          cases left with
          | nil => rfl
          | cons u us =>
            have hu : u.value = ")" := by simpa [peekValue] using hclose
            simp [closing, hu]
        rw [hleft, hwhole] at heq
        rw [heq, List.tail_append_of_ne_nil hclosing]
        exact hmore.append rest
    · rw [if_neg hclose]
      rcases stuck_or_closes hand hor hclose with hstuck | rfl
      · exact hstuck
      · rcases hleaves.2 with hstuck | heq
        · exact hstuck
        · rw [hwhole] at heq
          exact absurd (List.append_eq_nil_iff.1 heq.symm).1 hclosing

/-! ## Conditions with such predicates -/

theorem closing_open (h : t.value = "(") (depth : Nat) (ts : List Token) :
    closing depth (t :: ts) = closing (depth + 1) ts := by
  simp [closing, h]

theorem closing_close (h : t.value = ")") (depth : Nat) (ts : List Token) :
    closing (depth + 1) (t :: ts) = closing depth ts := by
  simp [closing, h]

theorem closing_other (hopen : t.value ≠ "(") (hclose : t.value ≠ ")") (depth : Nat)
    (ts : List Token) : closing depth (t :: ts) = closing depth ts := by
  simp [closing, hopen, hclose]

/-- A predicate keeps the depth of parentheses. -/
theorem closing_predicate {depth cases outer : Nat} {pending : Bool}
    (h : predicateScan depth cases pending tokens = true) (rest : List Token) :
    closing (outer + depth) (tokens ++ rest) = closing outer rest := by
  induction tokens generalizing depth cases pending with
  | nil =>
    have hdepth : depth = 0 := by
      simp only [predicateScan, decide_eq_true_eq] at h
      exact h.1
    rw [hdepth]
    rfl
  | cons t ts ih =>
    rw [List.cons_append]
    simp only [predicateScan] at h
    by_cases hopen : t.value = "("
    · rw [if_pos hopen] at h
      rw [closing_open hopen]
      exact ih h
    · rw [if_neg hopen] at h
      by_cases hclose : t.value = ")"
      · rw [if_pos hclose] at h
        cases depth with
        | zero => cases h
        | succ depth =>
          rw [← Nat.add_assoc, closing_close hclose]
          exact ih h
      · rw [if_neg hclose] at h
        rw [closing_other hopen hclose]
        split at h
        · exact ih h
        · split at h
          · exact ih h
          · split at h
            · cases cases with
              | zero => cases h
              | succ cases => exact ih h
            · split at h
              · exact ih h
              · split at h
                · exact ih h
                · split at h
                  · rw [Bool.and_eq_true] at h
                    exact ih h.2
                  · split at h
                    · cases h
                    · exact ih h

theorem closing_word {text : String} (k : Word text) (depth : Nat) (rest : List Token) :
    closing depth (k.1.1 :: rest) = closing depth rest :=
  closing_other k.1.2.2.1 k.1.2.2.2 depth rest

mutual

theorem Disjunction.closing_tokens (d : Disjunction) (depth : Nat) (rest : List Token) :
    closing depth (d.tokens ++ rest) = closing depth rest := by
  cases d with
  | one c => exact c.closing_tokens depth rest
  | or c keyword d =>
    rw [Disjunction.tokens, List.append_assoc, c.closing_tokens, List.cons_append, closing_word,
      d.closing_tokens]

theorem Conjunction.closing_tokens (c : Conjunction) (depth : Nat) (rest : List Token) :
    closing depth (c.tokens ++ rest) = closing depth rest := by
  cases c with
  | one f => exact f.closing_tokens depth rest
  | and f keyword c =>
    rw [Conjunction.tokens, List.append_assoc, f.closing_tokens, List.cons_append, closing_word,
      c.closing_tokens]

theorem Factor.closing_tokens (f : Factor) (depth : Nat) (rest : List Token) :
    closing depth (f.tokens ++ rest) = closing depth rest := by
  cases f with
  | not keyword f => rw [Factor.tokens, List.cons_append, closing_word, f.closing_tokens]
  | group opening d close =>
    have hinner : closing (depth + 1) (d.tokens ++ close.1 :: rest) = closing depth rest := by
      rw [d.closing_tokens, closing_close close.2.1]
    rw [Factor.tokens, List.cons_append, closing_open opening.2.1, List.append_assoc]
    exact hinner
  | predicate p => exact closing_predicate p.well_formed rest

end

theorem Parenthesis.lexed {text : String} (k : Parenthesis text)
    (htext : ∃ c ∈ text.toList, Text.isSpace c = false) : Lexed k.1 :=
  ⟨.inl (k.2.2.trans k.2.1.symm), by rwa [k.2.1]⟩

mutual

theorem Disjunction.lexed (d : Disjunction) : ∀ t ∈ d.tokens, Lexed t := by
  cases d with
  | one c => exact c.lexed
  | or c keyword d =>
    exact List.forall_mem_append.2 ⟨c.lexed, List.forall_mem_cons.2 ⟨keyword.2, d.lexed⟩⟩

theorem Conjunction.lexed (c : Conjunction) : ∀ t ∈ c.tokens, Lexed t := by
  cases c with
  | one f => exact f.lexed
  | and f keyword c =>
    exact List.forall_mem_append.2 ⟨f.lexed, List.forall_mem_cons.2 ⟨keyword.2, c.lexed⟩⟩

theorem Factor.lexed (f : Factor) : ∀ t ∈ f.tokens, Lexed t := by
  cases f with
  | not keyword f => exact List.forall_mem_cons.2 ⟨keyword.2, f.lexed⟩
  | group opening d close =>
    refine List.forall_mem_cons.2 ⟨Parenthesis.lexed opening ⟨'(', by decide, by decide⟩, ?_⟩
    refine List.forall_mem_append.2 ⟨d.lexed, List.forall_mem_cons.2 ⟨?_, List.forall_mem_nil _⟩⟩
    exact Parenthesis.lexed close ⟨')', by decide, by decide⟩
  | predicate p => exact p.lexed

end

theorem Conjunction.parse_plain (c : Conjunction) (h : ∀ p ∈ c.predicates, Plain p)
    (keyword : Keyword "OR") (rest : List Token) (fuel : Nat)
    (hfuel : 3 * c.tokens.length + 2 ≤ fuel) :
    ∃ e, parseAnd fuel (c.tokens ++ keyword.1 :: rest) = (e, keyword.1 :: rest) := by
  obtain ⟨a, htokens, -⟩ := c.exists_andCond h
  rw [← htokens] at hfuel ⊢
  have hnotAnd : peekUpper (keyword.1 :: rest) ≠ some "AND" := by simp [peekUpper, keyword.2.1]
  obtain ⟨e, hparse, -⟩ := parseAnd_tokens (fun _ => .true) a fuel
    (ends_keyword keyword (.inr rfl) rest) hnotAnd hfuel
  exact ⟨e, hparse⟩

theorem Factor.parse_plain (f : Factor) (h : ∀ p ∈ f.predicates, Plain p) {text : String}
    (keyword : Keyword text) (htext : text = "AND" ∨ text = "OR") (rest : List Token) (fuel : Nat)
    (hfuel : 3 * f.tokens.length + 1 ≤ fuel) :
    ∃ e, parseNot fuel (f.tokens ++ keyword.1 :: rest) = (e, keyword.1 :: rest) := by
  obtain ⟨n, htokens, -⟩ := f.exists_notCond h
  rw [← htokens] at hfuel ⊢
  obtain ⟨e, hparse, -⟩ := parseNot_tokens (fun _ => .true) n fuel
    (ends_keyword keyword htext rest) hfuel
  exact ⟨e, hparse⟩

mutual

theorem Disjunction.parseTerms_stuck (d : Disjunction) (hwhole : ∀ p ∈ d.predicates, Whole p)
    (hplain : ¬ ∀ p ∈ d.predicates, Plain p) {rest : List Token} (hlexed : ∀ t ∈ rest, Lexed t)
    (fuel : Nat) (hfuel : 3 * (d.tokens ++ rest).length + 2 ≤ fuel) :
    Stuck (parseOrRest fuel (parseAnd fuel (d.tokens ++ rest)).2).2 := by
  cases d with
  | one c =>
    have hstuck := c.parse_stuck hwhole hplain hlexed fuel hfuel
    rw [Disjunction.tokens, parseOrRest_stop hstuck.peekUpper.2]
    exact hstuck
  | or c keyword d =>
    simp only [Disjunction.tokens, List.append_assoc, List.cons_append, List.length_append,
      List.length_cons] at hfuel
    rw [Disjunction.predicates, List.forall_mem_append] at hwhole hplain
    have hrest : ∀ t ∈ keyword.1.1 :: (d.tokens ++ rest), Lexed t :=
      List.forall_mem_cons.2 ⟨keyword.2, List.forall_mem_append.2 ⟨d.lexed, hlexed⟩⟩
    rw [Disjunction.tokens, List.append_assoc, List.cons_append]
    by_cases hc : ∀ p ∈ c.predicates, Plain p
    · obtain ⟨e, hparse⟩ := c.parse_plain hc keyword.1 (d.tokens ++ rest) fuel (by omega)
      obtain ⟨fuel, rfl⟩ : ∃ f, fuel = f + 1 := ⟨fuel - 1, by omega⟩
      have hor : peekUpper (keyword.1.1 :: (d.tokens ++ rest)) = some "OR" := by
        simp [peekUpper, keyword.1.2.1]
      rw [hparse, parseOrRest, if_pos hor]
      exact d.parseTerms_stuck hwhole.2 (fun hd => hplain ⟨hc, hd⟩) hlexed fuel (by
        rw [List.length_append]; omega)
    · have hstuck := c.parse_stuck hwhole.1 hc hrest fuel (by
        simp only [List.length_append, List.length_cons]; omega)
      rw [parseOrRest_stop hstuck.peekUpper.2]
      exact hstuck

theorem Disjunction.parse_stuck (d : Disjunction) (hwhole : ∀ p ∈ d.predicates, Whole p)
    (hplain : ¬ ∀ p ∈ d.predicates, Plain p) {rest : List Token} (hlexed : ∀ t ∈ rest, Lexed t)
    (fuel : Nat) (hfuel : 3 * (d.tokens ++ rest).length + 3 ≤ fuel) :
    Stuck (parseOr fuel (d.tokens ++ rest)).2 := by
  obtain ⟨fuel, rfl⟩ : ∃ f, fuel = f + 1 := ⟨fuel - 1, by omega⟩
  rw [parseOr]
  exact d.parseTerms_stuck hwhole hplain hlexed fuel (by omega)

theorem Conjunction.parseTerms_stuck (c : Conjunction) (hwhole : ∀ p ∈ c.predicates, Whole p)
    (hplain : ¬ ∀ p ∈ c.predicates, Plain p) {rest : List Token} (hlexed : ∀ t ∈ rest, Lexed t)
    (fuel : Nat) (hfuel : 3 * (c.tokens ++ rest).length + 1 ≤ fuel) :
    Stuck (parseAndRest fuel (parseNot fuel (c.tokens ++ rest)).2).2 := by
  cases c with
  | one f =>
    have hstuck := f.parse_stuck hwhole hplain hlexed fuel hfuel
    rw [Conjunction.tokens, parseAndRest_stop hstuck.peekUpper.1]
    exact hstuck
  | and f keyword c =>
    simp only [Conjunction.tokens, List.append_assoc, List.cons_append, List.length_append,
      List.length_cons] at hfuel
    rw [Conjunction.predicates, List.forall_mem_append] at hwhole hplain
    have hrest : ∀ t ∈ keyword.1.1 :: (c.tokens ++ rest), Lexed t :=
      List.forall_mem_cons.2 ⟨keyword.2, List.forall_mem_append.2 ⟨c.lexed, hlexed⟩⟩
    rw [Conjunction.tokens, List.append_assoc, List.cons_append]
    by_cases hf : ∀ p ∈ f.predicates, Plain p
    · obtain ⟨e, hparse⟩ := f.parse_plain hf keyword.1 (.inl rfl) (c.tokens ++ rest) fuel
        (by omega)
      obtain ⟨fuel, rfl⟩ : ∃ f, fuel = f + 1 := ⟨fuel - 1, by omega⟩
      have hand : peekUpper (keyword.1.1 :: (c.tokens ++ rest)) = some "AND" := by
        simp [peekUpper, keyword.1.2.1]
      rw [hparse, parseAndRest, if_pos hand]
      exact c.parseTerms_stuck hwhole.2 (fun hc => hplain ⟨hf, hc⟩) hlexed fuel (by
        rw [List.length_append]; omega)
    · have hstuck := f.parse_stuck hwhole.1 hf hrest fuel (by
        simp only [List.length_append, List.length_cons]; omega)
      rw [parseAndRest_stop hstuck.peekUpper.1]
      exact hstuck

theorem Conjunction.parse_stuck (c : Conjunction) (hwhole : ∀ p ∈ c.predicates, Whole p)
    (hplain : ¬ ∀ p ∈ c.predicates, Plain p) {rest : List Token} (hlexed : ∀ t ∈ rest, Lexed t)
    (fuel : Nat) (hfuel : 3 * (c.tokens ++ rest).length + 2 ≤ fuel) :
    Stuck (parseAnd fuel (c.tokens ++ rest)).2 := by
  obtain ⟨fuel, rfl⟩ : ∃ f, fuel = f + 1 := ⟨fuel - 1, by omega⟩
  rw [parseAnd]
  exact c.parseTerms_stuck hwhole hplain hlexed fuel (by omega)

/-- The parser gets stuck in a factor that is not plain. -/
theorem Factor.parse_stuck (f : Factor) (hwhole : ∀ p ∈ f.predicates, Whole p)
    (hplain : ¬ ∀ p ∈ f.predicates, Plain p) {rest : List Token} (hlexed : ∀ t ∈ rest, Lexed t)
    (fuel : Nat) (hfuel : 3 * (f.tokens ++ rest).length + 1 ≤ fuel) :
    Stuck (parseNot fuel (f.tokens ++ rest)).2 := by
  obtain ⟨fuel, rfl⟩ : ∃ f, fuel = f + 1 := ⟨fuel - 1, by omega⟩
  cases f with
  | not keyword f =>
    simp only [Factor.tokens, List.cons_append, List.length_cons] at hfuel
    have hnot : peekUpper (keyword.1.1 :: (f.tokens ++ rest)) = some "NOT" := by
      simp [peekUpper, keyword.1.2.1]
    rw [Factor.tokens, List.cons_append, parseNot, if_pos hnot]
    exact f.parse_stuck hwhole hplain hlexed fuel (by omega)
  | group opening d close =>
    simp only [Factor.tokens, List.cons_append, List.append_assoc, List.length_cons] at hfuel
    have hclosing : closing 0 (d.tokens ++ close.1 :: rest) ≠ [] := by
      rw [d.closing_tokens, closing, if_neg (by rw [close.2.1]; decide), if_pos close.2.1]
      exact List.cons_ne_nil _ _
    have hgroup : isBooleanGroup 0 (opening.1 :: (d.tokens ++ close.1 :: rest)) = true := by
      have h := isBooleanGroup_of_closing hclosing []
      rw [List.append_nil] at h
      simpa [isBooleanGroup, opening.2.1] using h
    have hnot : peekUpper (opening.1 :: (d.tokens ++ close.1 :: rest)) ≠ some "NOT" := by
      simp [peekUpper, opening.2.2]
    have hvalue : peekValue (opening.1 :: (d.tokens ++ close.1 :: rest)) = some "(" := by
      simp [peekValue, opening.2.1]
    have hclose : Lexed close.1 := Parenthesis.lexed close ⟨')', by decide, by decide⟩
    have hstuck := d.parse_stuck hwhole hplain (List.forall_mem_cons.2 ⟨hclose, hlexed⟩) fuel
      (by simp only [List.nil_append] at hfuel; omega)
    have htokens : (Factor.group opening d close).tokens ++ rest =
        opening.1 :: (d.tokens ++ close.1 :: rest) := by simp [Factor.tokens]
    rw [htokens, parseNot, if_neg hnot, if_pos ⟨hvalue, hgroup⟩]
    show Stuck (if peekValue (parseOr fuel (d.tokens ++ close.1 :: rest)).2 = some ")" then
      (parseOr fuel (d.tokens ++ close.1 :: rest)).2.tail
      else (parseOr fuel (d.tokens ++ close.1 :: rest)).2)
    rw [if_neg hstuck.peekValue]
    exact hstuck
  | predicate p =>
    have hopen : peekValue p.tokens = some "(" := by
      by_contra hopen
      refine hplain fun q hq => ?_
      obtain rfl := List.mem_singleton.1 hq
      exact ⟨hopen, hwhole q hq⟩
    exact parseNot_stuck hopen hlexed hfuel

end

/-! ## The text of a condition -/

/-- The characters that are no white space. -/
def inked (text : List Char) : List Char := text.filter fun c => !Text.isSpace c

theorem inked_cons_space {c : Char} (h : Text.isSpace c = true) (cs : List Char) :
    inked (c :: cs) = inked cs := by
  simp [inked, h]

theorem inked_cons {c : Char} (h : Text.isSpace c = false) (cs : List Char) :
    inked (c :: cs) = c :: inked cs := by
  simp [inked, h]

theorem inked_cons_congr (c : Char) {cs ds : List Char} (h : inked cs = inked ds) :
    inked (c :: cs) = inked (c :: ds) := by
  by_cases hc : Text.isSpace c = true
  · rw [inked_cons_space hc, inked_cons_space hc, h]
  · rw [inked_cons (by simpa using hc), inked_cons (by simpa using hc), h]

theorem inked_dropWhile (cs : List Char) : inked (cs.dropWhile Text.isSpace) = inked cs := by
  induction cs with
  | nil => rfl
  | cons c cs ih =>
    by_cases hc : Text.isSpace c = true
    · rw [List.dropWhile_cons_of_pos hc, ih, inked_cons_space hc]
    · rw [List.dropWhile_cons_of_neg hc]

theorem inked_dropSpaceBefore (cs : List Char) : inked (dropSpaceBefore cs) = inked cs := by
  induction cs with
  | nil => rfl
  | cons c cs ih =>
    rw [dropSpaceBefore]
    split
    · next hc =>
        rw [inked_cons_space hc]
        split
        · split
          · exact ih
          · rw [inked_cons_space hc, ih]
        · rw [inked_cons_space hc, ih]
    · exact inked_cons_congr c ih

theorem inked_dropSpaceAfter (opened : Bool) (cs : List Char) :
    inked (dropSpaceAfter opened cs) = inked cs := by
  induction cs generalizing opened with
  | nil => rfl
  | cons c cs ih =>
    rw [dropSpaceAfter]
    split
    · next hc =>
        rw [Bool.and_eq_true] at hc
        rw [ih, inked_cons_space hc.2]
    · exact inked_cons_congr c (ih _)

theorem inked_joinAtPoint (fuel : Nat) (cs : List Char) :
    inked (joinAtPoint fuel cs) = inked cs := by
  induction fuel generalizing cs with
  | zero => rfl
  | succ fuel ih =>
    cases cs with
    | nil => rfl
    | cons c cs =>
      rw [joinAtPoint]
      split
      · next hc =>
          split
          · next d rest hcs =>
              split
              · next hd =>
                  rw [inked_cons_space hc, ← inked_dropWhile cs, hcs,
                    inked_cons_congr '.' (inked_cons_space hd rest)]
                  exact inked_cons_congr '.' ((ih _).trans (inked_dropWhile rest))
              · exact inked_cons_congr c (ih cs)
          · exact inked_cons_congr c (ih cs)
      · exact inked_cons_congr c (ih cs)

theorem inked_append (cs ds : List Char) : inked (cs ++ ds) = inked cs ++ inked ds :=
  List.filter_append _ _

theorem inked_intercalate (words : List (List Char)) :
    inked (List.intercalate [' '] words) = words.flatMap inked := by
  induction words with
  | nil => rfl
  | cons w words ih =>
    cases words with
    | nil => simp [List.intercalate]
    | cons v words =>
      have hstep : List.intercalate [' '] (w :: v :: words) =
          w ++ ' ' :: List.intercalate [' '] (v :: words) := by simp [List.intercalate]
      rw [hstep, inked_append, inked_cons_space (by decide), ih]
      rfl

theorem inked_split (word cs : List Char) :
    (Text.splitAux word cs).flatMap inked = inked word.reverse ++ inked cs := by
  induction cs generalizing word with
  | nil =>
    by_cases hword : word = []
    · simp [Text.splitAux, hword, inked]
    · simp [Text.splitAux, hword, inked]
  | cons c cs ih =>
    rw [Text.splitAux]
    split
    · next hc =>
        rw [inked_cons_space hc]
        split
        · next hword => rw [ih, hword]
        · rw [List.flatMap_cons, ih]
          rfl
    · rw [ih, List.reverse_cons, inked_append, List.append_assoc, ← inked_append]
      rfl

theorem inked_renderTokens (tokens : List Token) :
    inked (renderTokens tokens).toList = tokens.flatMap fun t => inked t.value.toList := by
  rw [renderTokens, String.toList_ofList, inked_intercalate]
  show (Text.splitAux [] _).flatMap inked = _
  rw [inked_split, inked_joinAtPoint, inked_dropSpaceAfter, inked_dropSpaceBefore,
    inked_intercalate, List.flatMap_map]
  rfl

theorem inked_ne_nil {tokens : List Token} (h : tokens ≠ []) (hlexed : ∀ t ∈ tokens, Lexed t) :
    (tokens.flatMap fun t => inked t.value.toList) ≠ [] := by
  cases tokens with
  | nil => exact absurd rfl h
  | cons t ts =>
    obtain ⟨-, c, hc, hspace⟩ := hlexed t List.mem_cons_self
    have hmem : c ∈ inked t.value.toList := List.mem_filter.2 ⟨hc, by simp [hspace]⟩
    rw [List.flatMap_cons]
    exact List.append_ne_nil_of_left_ne_nil (List.ne_nil_of_mem hmem) _

theorem renderTokens_ne {before tokens after : List Token}
    (hbefore : ∀ t ∈ before, Lexed t) (hafter : ∀ t ∈ after, Lexed t)
    (hmore : before ≠ [] ∨ after ≠ []) :
    renderTokens tokens ≠ renderTokens (before ++ tokens ++ after) := by
  intro heq
  have hinked := congrArg (fun text => (inked (String.toList text)).length) heq
  simp only [inked_renderTokens, List.flatMap_append, List.length_append] at hinked
  rcases hmore with h | h
  · have hpos := List.length_pos_of_ne_nil (inked_ne_nil h hbefore)
    omega
  · have hpos := List.length_pos_of_ne_nil (inked_ne_nil h hafter)
    omega

mutual

theorem Disjunction.split_at (d : Disjunction) {p : Predicate} (hp : p ∈ d.predicates) :
    ∃ before after, d.tokens = before ++ p.tokens ++ after ∧
      (before = [] → after = [] → d = .one (.one (.predicate p))) := by
  cases d with
  | one c =>
    obtain ⟨before, after, htokens, hwhole⟩ := c.split_at hp
    exact ⟨before, after, htokens, fun hb ha => congrArg _ (hwhole hb ha)⟩
  | or c keyword d =>
    rcases List.mem_append.1 hp with hp | hp
    · obtain ⟨before, after, htokens, -⟩ := c.split_at hp
      refine ⟨before, after ++ keyword.1.1 :: d.tokens, ?_, fun _ ha => ?_⟩
      · simp [Disjunction.tokens, htokens]
      · simp at ha
    · obtain ⟨before, after, htokens, -⟩ := d.split_at hp
      refine ⟨c.tokens ++ keyword.1.1 :: before, after, ?_, fun hb _ => ?_⟩
      · simp [Disjunction.tokens, htokens]
      · simp at hb

theorem Conjunction.split_at (c : Conjunction) {p : Predicate} (hp : p ∈ c.predicates) :
    ∃ before after, c.tokens = before ++ p.tokens ++ after ∧
      (before = [] → after = [] → c = .one (.predicate p)) := by
  cases c with
  | one f =>
    obtain ⟨before, after, htokens, hwhole⟩ := f.split_at hp
    exact ⟨before, after, htokens, fun hb ha => congrArg _ (hwhole hb ha)⟩
  | and f keyword c =>
    rcases List.mem_append.1 hp with hp | hp
    · obtain ⟨before, after, htokens, -⟩ := f.split_at hp
      refine ⟨before, after ++ keyword.1.1 :: c.tokens, ?_, fun _ ha => ?_⟩
      · simp [Conjunction.tokens, htokens]
      · simp at ha
    · obtain ⟨before, after, htokens, -⟩ := c.split_at hp
      refine ⟨f.tokens ++ keyword.1.1 :: before, after, ?_, fun hb _ => ?_⟩
      · simp [Conjunction.tokens, htokens]
      · simp at hb

theorem Factor.split_at (f : Factor) {p : Predicate} (hp : p ∈ f.predicates) :
    ∃ before after, f.tokens = before ++ p.tokens ++ after ∧
      (before = [] → after = [] → f = .predicate p) := by
  cases f with
  | not keyword f =>
    obtain ⟨before, after, htokens, -⟩ := f.split_at hp
    refine ⟨keyword.1.1 :: before, after, ?_, fun hb _ => ?_⟩
    · simp [Factor.tokens, htokens]
    · simp at hb
  | group opening d close =>
    obtain ⟨before, after, htokens, -⟩ := d.split_at hp
    refine ⟨opening.1 :: before, after ++ [close.1], ?_, fun hb _ => ?_⟩
    · simp [Factor.tokens, htokens]
    · simp at hb
  | predicate q =>
    obtain rfl := List.mem_singleton.1 hp
    exact ⟨[], [], by simp [Factor.tokens], fun _ _ => rfl⟩

end

mutual

theorem Disjunction.truth_unknown (d : Disjunction) {μ : List Token → Truth}
    (h : ∀ p ∈ d.predicates, μ p.tokens = .unknown) : d.truth μ = .unknown := by
  cases d with
  | one c => exact c.truth_unknown h
  | or c keyword d =>
    rw [Disjunction.predicates, List.forall_mem_append] at h
    rw [Disjunction.truth, c.truth_unknown h.1, d.truth_unknown h.2]
    rfl

theorem Conjunction.truth_unknown (c : Conjunction) {μ : List Token → Truth}
    (h : ∀ p ∈ c.predicates, μ p.tokens = .unknown) : c.truth μ = .unknown := by
  cases c with
  | one f => exact f.truth_unknown h
  | and f keyword c =>
    rw [Conjunction.predicates, List.forall_mem_append] at h
    rw [Conjunction.truth, f.truth_unknown h.1, c.truth_unknown h.2]
    rfl

theorem Factor.truth_unknown (f : Factor) {μ : List Token → Truth}
    (h : ∀ p ∈ f.predicates, μ p.tokens = .unknown) : f.truth μ = .unknown := by
  cases f with
  | not keyword f =>
    rw [Factor.truth, f.truth_unknown h]
    rfl
  | group opening d close => exact d.truth_unknown h
  | predicate p => exact h p List.mem_cons_self

end

/-! ## When the meaning is kept -/

/-- The tree of the parser has the truth of the condition, whatever that of the predicates, which
the tree names by their text. -/
def Disjunction.Preserved (d : Disjunction) : Prop :=
  ∀ τ, exprTruth τ (parseTokens d.tokens) = d.truth (readAtoms τ)

/-- No predicate begins with a parenthesis or holds a connective outside of parentheses, or the
condition is a single predicate without such a connective. -/
def Disjunction.Readable (d : Disjunction) : Prop :=
  (∀ p ∈ d.predicates, Plain p) ∨ ∃ p, d = .one (.one (.predicate p)) ∧ Whole p

theorem Disjunction.parseTokens_stuck (d : Disjunction) (hwhole : ∀ p ∈ d.predicates, Whole p)
    (hplain : ¬ ∀ p ∈ d.predicates, Plain p) :
    parseTokens d.tokens = .atomic (renderTokens d.tokens) := by
  have hstuck := d.parse_stuck hwhole hplain (List.forall_mem_nil _) (parserFuel d.tokens)
    (by simp [parserFuel])
  rw [List.append_nil] at hstuck
  have hne : d.tokens ≠ [] := by
    intro hnil
    obtain ⟨t, ts, heq, -⟩ := hstuck
    rw [hnil] at heq
    simp [parserFuel, parseOr, parseAnd, parseNot, parseOrRest, parseAndRest, parseAtom, atomLength,
      peekUpper, peekValue] at heq
  obtain ⟨t, ts, heq, -⟩ := hstuck
  simp [parseTokens, hne, heq]

/-- A readable condition keeps its meaning; among the conditions without a connective inside of a
predicate, outside of its parentheses, no other does. -/
theorem boolean_structure_preserved (d : Disjunction) :
    (d.Readable → d.Preserved) ∧
      ((∀ p ∈ d.predicates, Whole p) → d.Preserved → d.Readable) := by
  constructor
  · rintro (hplain | ⟨p, rfl, hwhole⟩) τ
    · exact d.truth_parseTokens hplain τ
    · have hpredicates : ∀ q ∈ (Disjunction.one (.one (.predicate p))).predicates, Whole q := by
        intro q hq
        obtain rfl := List.mem_singleton.1 hq
        exact hwhole
      by_cases hplain : ∀ q ∈ (Disjunction.one (.one (.predicate p))).predicates, Plain q
      · exact Disjunction.truth_parseTokens _ hplain τ
      · rw [Disjunction.parseTokens_stuck _ hpredicates hplain]
        rfl
  · intro hwhole hpreserved
    by_contra hreadable
    have hplain : ¬ ∀ p ∈ d.predicates, Plain p := fun h => hreadable (.inl h)
    -- the text of the whole condition is true, every predicate of it unknown
    let τ : String → Truth := fun text =>
      if text = renderTokens d.tokens then .true else .unknown
    have hunknown : d.truth (readAtoms τ) = .unknown := by
      refine d.truth_unknown fun p hp => ?_
      obtain ⟨before, after, htokens, hsingle⟩ := d.split_at hp
      have hlexed := d.lexed
      rw [htokens, List.forall_mem_append, List.forall_mem_append] at hlexed
      have hmore : before ≠ [] ∨ after ≠ [] := by
        by_contra hnone
        push Not at hnone
        exact hreadable (.inr ⟨p, hsingle hnone.1 hnone.2, hwhole p hp⟩)
      have hne := @renderTokens_ne before p.tokens after hlexed.1.1 hlexed.2 hmore
      rw [← htokens] at hne
      exact if_neg hne
    have htrue : exprTruth τ (parseTokens d.tokens) = .true := by
      rw [d.parseTokens_stuck hwhole hplain]
      exact if_pos rfl
    have heq := hpreserved τ
    rw [htrue, hunknown] at heq
    cases heq

/-- `A >= 33` -/
def comparison : Predicate where
  tokens := [⟨.word, "A", "A", 5⟩, ⟨.symbol, ">=", ">=", 7⟩, ⟨.number, "33", "33", 10⟩]
  lexed := by decide
  nonempty := by decide
  no_negation := by decide
  well_formed := by decide
  no_group := by decide

/-- `C = 1` -/
def equality : Predicate where
  tokens := [⟨.word, "C", "C", 16⟩, ⟨.symbol, "=", "=", 18⟩, ⟨.number, "1", "1", 20⟩]
  lexed := by decide
  nonempty := by decide
  no_negation := by decide
  well_formed := by decide
  no_group := by decide

/-- `B BETWEEN 1 AND 2` -/
def between : Predicate where
  tokens := [⟨.word, "B", "B", 27⟩, ⟨.word, "BETWEEN", "BETWEEN", 29⟩, ⟨.number, "1", "1", 37⟩,
    ⟨.word, "AND", "AND", 39⟩, ⟨.number, "2", "2", 43⟩]
  lexed := by decide
  nonempty := by decide
  no_negation := by decide
  well_formed := by decide
  no_group := by decide

/-- `NOT (A >= 33 OR C = 1) AND B BETWEEN 1 AND 2` -/
def negatedGroup : Disjunction :=
  .one (.and
    (.not ⟨⟨⟨.word, "NOT", "NOT", 0⟩, by decide⟩, by decide⟩
      (.group ⟨⟨.symbol, "(", "(", 4⟩, by decide⟩
        (.or (.one (.predicate comparison)) ⟨⟨⟨.word, "OR", "OR", 13⟩, by decide⟩, by decide⟩
          (.one (.one (.predicate equality))))
        ⟨⟨.symbol, ")", ")", 21⟩, by decide⟩))
    ⟨⟨⟨.word, "AND", "AND", 23⟩, by decide⟩, by decide⟩ (.one (.predicate between)))

example : negatedGroup.tokens = (scan "NOT (A >= 33 OR C = 1) AND B BETWEEN 1 AND 2").tokens := by
  decide +kernel

/-- All connectives, a group and the `AND` of a `BETWEEN` are read as they are written. -/
theorem negatedGroup_preserved : negatedGroup.Preserved := by
  have hplain : ∀ p ∈ negatedGroup.predicates, Plain p := by decide +kernel
  exact (boolean_structure_preserved negatedGroup).1 (.inl hplain)

/-- `(A + B) > 3` -/
def sumComparison : Predicate where
  tokens := [⟨.symbol, "(", "(", 0⟩, ⟨.word, "A", "A", 1⟩, ⟨.symbol, "+", "+", 3⟩,
    ⟨.word, "B", "B", 5⟩, ⟨.symbol, ")", ")", 6⟩, ⟨.symbol, ">", ">", 8⟩, ⟨.number, "3", "3", 10⟩]
  lexed := by decide
  nonempty := by decide
  no_negation := by decide
  well_formed := by decide
  no_group := by decide

/-- `(A + B) > 3 AND C = 1` -/
def parenthesisedOperand : Disjunction :=
  .one (.and (.predicate sumComparison)
    ⟨⟨⟨.word, "AND", "AND", 12⟩, by decide⟩, by decide⟩ (.one (.predicate equality)))

example : parenthesisedOperand.tokens = (scan "(A + B) > 3 AND C = 1").tokens := by decide +kernel

/-- An operand in parentheses at the beginning of a predicate makes the condition a single atom. -/
theorem parenthesised_operand_is_one_atom :
    ¬ ∀ d : Disjunction, d.Preserved := by
  intro h
  have heq := h parenthesisedOperand fun text => if text = "C = 1" then .false else .true
  revert heq
  decide +kernel

end AtlasDb.Semantics
