import AtlasDb.Semantics.LocalTheory

/-!
# Unreachable branches

What it takes for control to enter an arm of an IF or the body of a loop, and when a predicate that
is assessed as an obvious contradiction shows that it never does. The predicate of an arm holds
`NOT` of each earlier condition, while control only needs that condition not to be TRUE; so a
condition under two negations is required to be TRUE where it may be unknown as well. No predicate
of a condition begins with a parenthesis or holds a scalar `CASE` with `AND` or `OR`.
-/

namespace AtlasDb.Semantics

open Core Lib Parsing Analysis

/-! ## The truth of a search condition depends on its atoms -/

mutual

theorem OrCond.truth_congr {μ ν : List Token → Truth} (o : OrCond)
    (h : ∀ atom ∈ o.atoms, μ atom = ν atom) : o.truth μ = o.truth ν := by
  cases o with
  | one a => exact a.truth_congr h
  | or a keyword o =>
    rw [OrCond.truth, OrCond.truth, a.truth_congr fun x hx => h x (List.mem_append_left _ hx),
      o.truth_congr fun x hx => h x (List.mem_append_right _ hx)]

theorem AndCond.truth_congr {μ ν : List Token → Truth} (a : AndCond)
    (h : ∀ atom ∈ a.atoms, μ atom = ν atom) : a.truth μ = a.truth ν := by
  cases a with
  | one n => exact n.truth_congr h
  | and n keyword a =>
    rw [AndCond.truth, AndCond.truth, n.truth_congr fun x hx => h x (List.mem_append_left _ hx),
      a.truth_congr fun x hx => h x (List.mem_append_right _ hx)]

theorem NotCond.truth_congr {μ ν : List Token → Truth} (n : NotCond)
    (h : ∀ atom ∈ n.atoms, μ atom = ν atom) : n.truth μ = n.truth ν := by
  cases n with
  | not keyword n => rw [NotCond.truth, NotCond.truth, n.truth_congr h]
  | group opening o closing => exact o.truth_congr h
  | atom tokens => exact h _ (List.mem_singleton_self _)

end

/-! ## Demands of an expression -/

section Folded

variable [Text.CaseMap]

/-- An atom and what is demanded of it. -/
abbrev Demand : Type := String × Need

mutual

/-- The branches of `_branches` with the demand on each atom. -/
def demandBranches : PredicateExpr → Need → List (List Demand)
  | .not e, n => demandBranches e n.flip
  | .true, n => if n.negated then [] else [[]]
  | .false, n => if n.negated then [[]] else []
  | .atomic text, n => [[(foldAtom text, n)]]
  | .unknown text, n => [[(foldAtom text, n)]]
  | .and es, n => if n.negated then demandUnion es n else demandProduct es n
  | .or es, n => if n.negated then demandProduct es n else demandUnion es n

def demandUnion : List PredicateExpr → Need → List (List Demand)
  | [], _ => []
  | e :: es, n => demandBranches e n ++ demandUnion es n

def demandProduct : List PredicateExpr → Need → List (List Demand)
  | [], _ => [[]]
  | e :: es, n => (demandBranches e n).flatMap fun l => (demandProduct es n).map (l ++ ·)

end

/-- All demands of a branch are met. -/
def Met (τ : String → Truth) (branch : List Demand) : Prop := ∀ d ∈ branch, d.2.Meets (τ d.1)

omit [Text.CaseMap] in
theorem met_append {τ : String → Truth} {xs ys : List Demand} (hx : Met τ xs) (hy : Met τ ys) :
    Met τ (xs ++ ys) := by
  intro d hd
  rcases List.mem_append.1 hd with h | h
  · exact hx d h
  · exact hy d h

omit [Text.CaseMap] in
theorem met_nil (τ : String → Truth) : Met τ [] := fun _ h => absurd h List.not_mem_nil

omit [Text.CaseMap] in
theorem exists_met_product {τ : String → Truth} {bs cs : List (List Demand)}
    (hb : ∃ b ∈ bs, Met τ b) (hc : ∃ c ∈ cs, Met τ c) :
    ∃ d ∈ bs.flatMap fun l => cs.map (l ++ ·), Met τ d := by
  obtain ⟨b, hb, hbm⟩ := hb
  obtain ⟨c, hc, hcm⟩ := hc
  exact ⟨b ++ c, List.mem_flatMap.2 ⟨b, hb, List.mem_map_of_mem hc⟩, met_append hbm hcm⟩

omit [Text.CaseMap] in
theorem exists_met_append {τ : String → Truth} {bs cs : List (List Demand)}
    (h : (∃ b ∈ bs, Met τ b) ∨ ∃ c ∈ cs, Met τ c) : ∃ d ∈ bs ++ cs, Met τ d := by
  rcases h with ⟨b, hb, hbm⟩ | ⟨c, hc, hcm⟩
  · exact ⟨b, List.mem_append_left _ hb, hbm⟩
  · exact ⟨c, List.mem_append_right _ hc, hcm⟩

mutual

theorem exists_met {τ : String → Truth} (e : PredicateExpr) {n : Need}
    (h : n.Meets (exprTruth (τ ∘ foldAtom) e)) : ∃ b ∈ demandBranches e n, Met τ b := by
  cases e with
  | atomic text => exact ⟨_, List.mem_singleton_self _, by simpa [Met, exprTruth] using h⟩
  | unknown text => exact ⟨_, List.mem_singleton_self _, by simpa [Met, exprTruth] using h⟩
  | «true» =>
    cases n <;> simp [exprTruth, Need.Meets] at h <;>
      exact ⟨[], List.mem_singleton_self _, met_nil τ⟩
  | «false» =>
    cases n <;> simp [exprTruth, Need.Meets] at h <;>
      exact ⟨[], List.mem_singleton_self _, met_nil τ⟩
  | not e => exact exists_met e (Need.meets_not h)
  | and es => exact exists_met_all es h
  | or es => exact exists_met_any es h

theorem exists_met_all {τ : String → Truth} (es : List PredicateExpr) {n : Need}
    (h : n.Meets (allTruth (τ ∘ foldAtom) es)) :
    ∃ b ∈ if n.negated then demandUnion es n else demandProduct es n, Met τ b := by
  cases es with
  | nil =>
    cases n <;> simp [allTruth, Need.Meets] at h <;>
      exact ⟨[], List.mem_singleton_self _, met_nil τ⟩
  | cons e es =>
    have hsplit := Need.and_split h
    have hrest := exists_met_all (τ := τ) (n := n) es
    cases hn : n.negated with
    | true =>
      simp only [hn, if_true] at hsplit hrest ⊢
      exact exists_met_append (hsplit.imp (exists_met e) hrest)
    | false =>
      simp only [hn, Bool.false_eq_true, if_false] at hsplit hrest ⊢
      exact exists_met_product (exists_met e hsplit.1) (hrest hsplit.2)

theorem exists_met_any {τ : String → Truth} (es : List PredicateExpr) {n : Need}
    (h : n.Meets (anyTruth (τ ∘ foldAtom) es)) :
    ∃ b ∈ if n.negated then demandProduct es n else demandUnion es n, Met τ b := by
  cases es with
  | nil =>
    cases n <;> simp [anyTruth, Need.Meets] at h <;>
      exact ⟨[], List.mem_singleton_self _, met_nil τ⟩
  | cons e es =>
    have hsplit := Need.or_split h
    have hrest := exists_met_any (τ := τ) (n := n) es
    cases hn : n.negated with
    | true =>
      simp only [hn, if_true] at hsplit hrest ⊢
      exact exists_met_product (exists_met e hsplit.1) (hrest hsplit.2)
    | false =>
      simp only [hn, Bool.false_eq_true, if_false] at hsplit hrest ⊢
      exact exists_met_append (hsplit.imp (exists_met e) hrest)

end

/-! ## The branches of the evaluator -/

/-- What the evaluator keeps of the demands. -/
def erase (branch : List Demand) : Branch := branch.map fun d => ⟨d.1, d.2.negated⟩

omit [Text.CaseMap] in
@[simp] theorem erase_append (xs ys : List Demand) : erase (xs ++ ys) = erase xs ++ erase ys :=
  List.map_append

variable {children : List (List Branch)}

omit [Text.CaseMap] in
theorem unionBranches_eq_some {bs : List Branch}
    (h : unionBranches children = some bs) : bs = children.flatten := by
  unfold unionBranches at h
  split at h
  · cases h
  · exact (Option.some.inj h).symm

omit [Text.CaseMap] in
theorem productBranches_cons {result bs : List Branch} {child : List Branch}
    (h : productBranches result (child :: children) = some bs) :
    productBranches (result.flatMap fun left => child.map (left ++ ·)) children = some bs := by
  simp only [productBranches] at h
  split at h
  · cases h
  · exact h

theorem branchesOfAll_cons {e : PredicateExpr} {es : List PredicateExpr} {negated : Bool}
    (h : branchesOfAll (e :: es) negated = some children) :
    ∃ b bs, branches e negated = some b ∧ branchesOfAll es negated = some bs ∧
    children = b :: bs := by
  simp only [branchesOfAll, Option.bind_eq_some_iff, Option.map_eq_some_iff] at h
  obtain ⟨b, hb, bs, hbs, rfl⟩ := h
  exact ⟨b, bs, hb, hbs, rfl⟩

mutual

/-- The demands of a branch are the evaluator's. -/
theorem mem_branches (e : PredicateExpr) {n : Need} {bs : List Branch}
    (h : branches e n.negated = some bs) {b : List Demand} (hb : b ∈ demandBranches e n) :
    erase b ∈ bs := by
  cases e with
  | atomic text =>
    obtain rfl := List.mem_singleton.1 hb
    obtain rfl := Option.some.inj h
    exact List.mem_singleton_self _
  | unknown text =>
    obtain rfl := List.mem_singleton.1 hb
    obtain rfl := Option.some.inj h
    exact List.mem_singleton_self _
  | «true» =>
    obtain rfl := Option.some.inj h
    cases n <;> simp [demandBranches, Need.negated] at hb ⊢ <;> subst hb <;> rfl
  | «false» =>
    obtain rfl := Option.some.inj h
    cases n <;> simp [demandBranches, Need.negated] at hb ⊢ <;> subst hb <;> rfl
  | not e =>
    rw [branches, ← Need.negated_flip] at h
    exact mem_branches e h hb
  | and es =>
    obtain ⟨children, hchildren, h⟩ := Option.bind_eq_some_iff.1 h
    simp only [demandBranches] at hb
    split at h
    · next hn =>
        rw [if_pos hn] at hb
        rw [unionBranches_eq_some h]
        exact mem_union es hchildren hb
    · next hn =>
        rw [if_neg hn] at hb
        exact mem_product es hchildren h (List.mem_singleton_self _) hb
  | or es =>
    obtain ⟨children, hchildren, h⟩ := Option.bind_eq_some_iff.1 h
    simp only [demandBranches] at hb
    split at h
    · next hn =>
        rw [if_pos hn] at hb
        exact mem_product es hchildren h (List.mem_singleton_self _) hb
    · next hn =>
        rw [if_neg hn] at hb
        rw [unionBranches_eq_some h]
        exact mem_union es hchildren hb

theorem mem_union (es : List PredicateExpr) {n : Need} {children : List (List Branch)}
    (h : branchesOfAll es n.negated = some children) {b : List Demand} (hb : b ∈ demandUnion es n) :
    erase b ∈ children.flatten := by
  cases es with
  | nil => cases hb
  | cons e es =>
    obtain ⟨c, cs, hc, hcs, rfl⟩ := branchesOfAll_cons h
    rw [List.flatten_cons, List.mem_append]
    rcases List.mem_append.1 hb with hb | hb
    · exact .inl (mem_branches e hc hb)
    · exact .inr (mem_union es hcs hb)

theorem mem_product (es : List PredicateExpr) {n : Need} {children : List (List Branch)}
    (h : branchesOfAll es n.negated = some children) {result bs : List Branch}
    (hbs : productBranches result children = some bs) {left : Branch} (hleft : left ∈ result)
    {b : List Demand} (hb : b ∈ demandProduct es n) : left ++ erase b ∈ bs := by
  cases es with
  | nil =>
    obtain rfl := List.mem_singleton.1 hb
    obtain rfl := Option.some.inj h
    obtain rfl := Option.some.inj hbs
    simpa [erase] using hleft
  | cons e es =>
    obtain ⟨c, cs, hc, hcs, rfl⟩ := branchesOfAll_cons h
    obtain ⟨d, hd, hb⟩ := List.mem_flatMap.1 hb
    obtain ⟨d', hd', rfl⟩ := List.mem_map.1 hb
    have hmid : left ++ erase d ∈ result.flatMap fun left => c.map (left ++ ·) :=
      List.mem_flatMap.2 ⟨left, hleft, List.mem_map_of_mem (mem_branches e hc hd)⟩
    rw [erase_append, ← List.append_assoc]
    exact mem_product es hcs (productBranches_cons hbs) hmid hd'

end

variable {children : List (List Branch)} {result bs : List Branch}

theorem branchesOfAll_append {xs ys : List PredicateExpr} {negated : Bool}
    (h : branchesOfAll (xs ++ ys) negated = some children) :
    ∃ cx cy, branchesOfAll xs negated = some cx ∧ branchesOfAll ys negated = some cy ∧
      children = cx ++ cy := by
  induction xs generalizing children with
  | nil => exact ⟨[], children, rfl, h, rfl⟩
  | cons x xs ih =>
    obtain ⟨b, bs, hb, hbs, rfl⟩ := branchesOfAll_cons h
    obtain ⟨cx, cy, hx, hy, rfl⟩ := ih hbs
    exact ⟨b :: cx, cy, by simp [branchesOfAll, hb, hx], hy, rfl⟩

omit [Text.CaseMap] in
theorem productBranches_append {cx cy : List (List Branch)}
    (h : productBranches result (cx ++ cy) = some bs) :
    ∃ mid, productBranches result cx = some mid ∧ productBranches mid cy = some bs := by
  induction cx generalizing result with
  | nil => exact ⟨result, rfl, h⟩
  | cons c cx ih =>
    simp only [List.cons_append, productBranches] at h ⊢
    split at h
    · cases h
    · next hlength =>
        rw [if_neg hlength]
        exact ih h

omit [Text.CaseMap] in
theorem productBranches_length
    (hresult : result.length ≤ maxBranches) (h : productBranches result children = some bs) :
    bs.length ≤ maxBranches := by
  induction children generalizing result with
  | nil => exact Option.some.inj h ▸ hresult
  | cons child children ih =>
    simp only [productBranches] at h
    split at h
    · cases h
    · next hlength => exact ih (not_lt.1 hlength) h

omit [Text.CaseMap] in
theorem unionBranches_length {bs : List Branch}
    (h : unionBranches children = some bs) : bs.length ≤ maxBranches := by
  unfold unionBranches at h
  split at h
  · cases h
  · next hlength => exact Option.some.inj h ▸ not_lt.1 hlength

theorem branches_length {e : PredicateExpr} {negated : Bool} {bs : List Branch}
    (h : branches e negated = some bs) : bs.length ≤ maxBranches := by
  have hone : ([[]] : List Branch).length ≤ maxBranches := by decide
  match e with
  | .not e => exact branches_length (e := e) h
  | .true => obtain rfl := Option.some.inj h; cases negated <;> decide
  | .false => obtain rfl := Option.some.inj h; cases negated <;> decide
  | .atomic text => obtain rfl := Option.some.inj h; exact hone
  | .unknown text => obtain rfl := Option.some.inj h; exact hone
  | .and es =>
    obtain ⟨children, -, h⟩ := Option.bind_eq_some_iff.1 h
    split at h
    · exact unionBranches_length h
    · exact productBranches_length hone h
  | .or es =>
    obtain ⟨children, -, h⟩ := Option.bind_eq_some_iff.1 h
    split at h
    · exact productBranches_length hone h
    · exact unionBranches_length h

theorem branches_combineAnd {values : List PredicateExpr} {bs : List Branch}
    (h : branches (.combineAnd values) false = some bs) :
    ∃ children, branchesOfAll (values.flatMap PredicateExpr.conjuncts) false = some children ∧
      productBranches [[]] children = some bs := by
  unfold PredicateExpr.combineAnd at h
  split at h
  · next e heq =>
      have hlength := branches_length h
      refine ⟨[bs], by simp [heq, branchesOfAll, h], ?_⟩
      simp [productBranches, not_lt.2 hlength]
  · exact Option.bind_eq_some_iff.1 h

/-! ## The demands of an arm -/

/-- The branches of demands of operands that are all to be met. -/
def operandDemands : List (PredicateExpr × Need) → List (List Demand)
  | [] => [[]]
  | o :: os => (demandBranches o.1 o.2).flatMap fun l => (operandDemands os).map (l ++ ·)

variable {os : List (PredicateExpr × Need)}

theorem exists_met_operands {τ : String → Truth}
    (h : ∀ o ∈ os, o.2.Meets (exprTruth (τ ∘ foldAtom) o.1)) :
    ∃ b ∈ operandDemands os, Met τ b := by
  induction os with
  | nil => exact ⟨[], List.mem_singleton_self _, met_nil τ⟩
  | cons o os ih =>
    exact exists_met_product (exists_met o.1 (h o List.mem_cons_self))
      (ih fun o' ho' => h o' (List.mem_cons_of_mem _ ho'))

theorem mem_conjuncts (e : PredicateExpr) {n : Need} (hn : n.negated = false)
    (h : branchesOfAll e.conjuncts false = some children)
    (hbs : productBranches result children = some bs) {left : Branch}
    (hleft : left ∈ result) {b : List Demand} (hb : b ∈ demandBranches e n) :
    left ++ erase b ∈ bs := by
  rw [← hn] at h
  have hone : b ∈ demandProduct [e] n := by
    refine List.mem_flatMap.2 ⟨b, hb, ?_⟩
    simp [demandProduct]
  cases e with
  | and es =>
    simp only [demandBranches, hn, Bool.false_eq_true, if_false] at hb
    exact mem_product es h hbs hleft hb
  | atomic text => exact mem_product _ h hbs hleft hone
  | unknown text => exact mem_product _ h hbs hleft hone
  | «true» => exact mem_product _ h hbs hleft hone
  | «false» => exact mem_product _ h hbs hleft hone
  | not e => exact mem_product _ h hbs hleft hone
  | or es => exact mem_product _ h hbs hleft hone

theorem mem_operands (hos : ∀ o ∈ os, o.2.negated = false)
    (h : branchesOfAll ((os.map Prod.fst).flatMap PredicateExpr.conjuncts) false = some children)
    (hbs : productBranches result children = some bs) {left : Branch}
    (hleft : left ∈ result) {b : List Demand} (hb : b ∈ operandDemands os) :
    left ++ erase b ∈ bs := by
  induction os generalizing children result left b with
  | nil =>
    obtain rfl := List.mem_singleton.1 hb
    obtain rfl := Option.some.inj h
    obtain rfl := Option.some.inj hbs
    simpa [erase] using hleft
  | cons o os ih =>
    rw [List.map_cons, List.flatMap_cons] at h
    obtain ⟨cx, cy, hx, hy, rfl⟩ := branchesOfAll_append h
    obtain ⟨mid, hmid, hbs⟩ := productBranches_append hbs
    obtain ⟨d, hd, hb⟩ := List.mem_flatMap.1 hb
    obtain ⟨d', hd', rfl⟩ := List.mem_map.1 hb
    have hfirst := mem_conjuncts o.1 (hos o List.mem_cons_self) hx hmid hleft hd
    rw [erase_append, ← List.append_assoc]
    exact ih (fun o' ho' => hos o' (List.mem_cons_of_mem _ ho')) hy hbs hfirst hd'

/-! ## The assessment -/

omit [Text.CaseMap] in
theorem classifyBranch_ne (b : Branch) : classifyBranch b ≠ .obviousContradiction := by
  unfold classifyBranch
  dsimp only
  split
  · decide
  · split
    · decide
    · split
      · decide
      · decide

theorem assess_flagged {root : PredicateExpr} (h : assess root = .obviousContradiction) :
    ∃ bs, branches root false = some bs ∧ ∀ b ∈ bs, (contradictionOf b).isSome := by
  unfold assess at h
  split at h
  · cases h
  · next bs hbs =>
      refine ⟨bs, hbs, fun b hb => ?_⟩
      split at h
      · next hnil =>
          have hfilter := List.filter_eq_nil_iff.1 (List.map_eq_nil_iff.1 hnil) b hb
          simpa [Option.isNone_iff_eq_none, Option.isSome_iff_ne_none] using hfilter
      · next first rest heq =>
          have hmem := (foldl_best (fun best s => statusPrecedence best < statusPrecedence s)
            (fun _ => by omega) (fun _ _ _ => by omega) (fun _ _ _ => by omega) first rest).1
          rw [h, ← heq] at hmem
          obtain ⟨b', -, hclass⟩ := List.mem_map.1 hmem
          exact absurd hclass (classifyBranch_ne b')

/-! ## Settled demands -/

/-- A demand that is met only if the symbol is not NULL. -/
def pinsSymbol (symbol : String) (d : Demand) : Bool :=
  match shapeOf d.1 with
  | .comparison s _ _ => s = symbol && d.2.strong
  | .stringEquality s _ _ => s = symbol && d.2.strong
  | .nullTest s isNull => s = symbol && isNull == d.2.negated
  | _ => false

/-- In a branch whose demands are met the atom is not unknown, or need not be TRUE for the
evaluator. -/
def isSettled (branch : List Demand) (d : Demand) : Bool :=
  d.2 ≠ .notFalse || branch.any (fun d' => d'.1 = d.1 && d'.2.strong) ||
    match shapeOf d.1 with
    | .literal _ => true
    | .nullTest _ _ => true
    | .comparison symbol _ _ => branch.any (pinsSymbol symbol)
    | .stringEquality symbol _ _ => branch.any (pinsSymbol symbol)
    | .other => false

def settledPart (branch : List Demand) : List Demand := branch.filter (isSettled branch)

variable {I : AtomReading}

omit [Text.CaseMap] in
theorem value_ne_none_of_pinsSymbol {symbol : String} {d : Demand}
    (hpin : pinsSymbol symbol d = true) (hd : d.2.Meets (I.truth d.1)) : I.value symbol ≠ none := by
  intro hnone
  unfold pinsSymbol at hpin
  unfold AtomReading.truth at hd
  split at hpin
  · next s op value hshape =>
      obtain ⟨rfl, hstrong⟩ : s = symbol ∧ d.2.strong = true := by simpa using hpin
      simp only [hshape, hnone] at hd
      cases hn : d.2 <;> simp [hn, Need.strong, Need.Meets] at hd hstrong
  · next s equal value hshape =>
      obtain ⟨rfl, hstrong⟩ : s = symbol ∧ d.2.strong = true := by simpa using hpin
      simp only [hshape, hnone] at hd
      cases hn : d.2 <;> simp [hn, Need.strong, Need.Meets] at hd hstrong
  · next s isNull hshape =>
      obtain ⟨rfl, hnull⟩ : s = symbol ∧ isNull = d.2.negated := by simpa using hpin
      simp only [hshape, hnone, hnull] at hd
      cases hn : d.2 <;> simp [hn, Need.negated, Need.Meets, Truth.ofBool] at hd
  · cases hpin

omit [Text.CaseMap] in
theorem truth_ne_unknown_of_isSettled {branch : List Demand} (hmet : Met I.truth branch)
    {d : Demand}
    (hsettled : isSettled branch d = true) (hneed : d.2 = .notFalse) : I.truth d.1 ≠ .unknown := by
  have hofBool : ∀ b, Truth.ofBool b ≠ .unknown := by intro b; cases b <;> decide
  simp only [isSettled, hneed, ne_eq, not_true_eq_false, decide_false, Bool.false_or,
    Bool.or_eq_true, List.any_eq_true, Bool.and_eq_true, decide_eq_true_eq] at hsettled
  rcases hsettled with ⟨d', hd', htext, hstrong⟩ | hshape
  · have hmeets := hmet d' hd'
    rw [htext] at hmeets
    intro hunknown
    cases hn : d'.2 <;> simp [hn, hunknown, Need.strong, Need.Meets] at hmeets hstrong
  · unfold AtomReading.truth
    revert hshape
    cases shapeOf d.1 with
    | literal value => exact fun _ => hofBool _
    | nullTest symbol isNull => exact fun _ => hofBool _
    | comparison symbol op value =>
      intro hshape
      obtain ⟨d', hd', hpin⟩ := List.any_eq_true.1 hshape
      obtain ⟨v, hv⟩ :=
        Option.ne_none_iff_exists'.1 (value_ne_none_of_pinsSymbol hpin (hmet d' hd'))
      simp only [hv]
      exact hofBool _
    | stringEquality symbol equal value =>
      intro hshape
      obtain ⟨d', hd', hpin⟩ := List.any_eq_true.1 hshape
      obtain ⟨v, hv⟩ :=
        Option.ne_none_iff_exists'.1 (value_ne_none_of_pinsSymbol hpin (hmet d' hd'))
      simp only [hv]
      exact hofBool _
    | other =>
      intro hshape
      cases hshape

omit [Text.CaseMap] in
theorem holds_settledPart {branch : List Demand} (hmet : Met I.truth branch) :
    ∀ l ∈ erase (settledPart branch), I.Holds l := by
  intro l hl
  obtain ⟨d, hd, rfl⟩ := List.mem_map.1 hl
  obtain ⟨hmem, hsettled⟩ := List.mem_filter.1 hd
  have hmeets := hmet d hmem
  unfold AtomReading.Holds
  cases hneed : d.2 with
  | isTrue => simpa [hneed, Need.Meets, Need.negated] using hmeets
  | isFalse => simp_all [Need.Meets, Need.negated]
  | notTrue => simpa [hneed, Need.Meets, Need.negated] using hmeets
  | notFalse =>
    have hknown := truth_ne_unknown_of_isSettled hmet hsettled hneed
    have hnot : I.truth d.1 ≠ .false := by simpa [hneed, Need.Meets] using hmeets
    cases htruth : I.truth d.1 with
    | «true» => rfl
    | «false» => exact absurd htruth hnot
    | unknown => exact absurd htruth hknown

/-! ## Entering an arm or a loop -/

/-- What condition texts mean in a state of the procedure's variables: the search condition a text
is, the truth of its atomic predicates, and whether the query of a FOR has a row. -/
structure SqlMeaning (S : Type) where
  conditionOf : String → SearchCondition
  atomTruth : S → List Token → Truth
  hasRow : S → String → Bool

namespace SqlMeaning

variable {S : Type}

def truth (M : SqlMeaning S) (σ : S) (text : String) : Truth :=
  (M.conditionOf text).truth (M.atomTruth σ)

/-- Control enters an arm: no earlier condition is TRUE, and its own is, if it has one. -/
def ArmEntered (M : SqlMeaning S) (σ : S) (arms : List IfArm) (index : Nat) : Prop :=
  ∃ arm, arms[index]? = some arm ∧
    (∀ text ∈ (arms.take index).filterMap IfArm.condition?, M.truth σ text ≠ .true) ∧
      ∀ text ∈ IfArm.condition? arm, M.truth σ text = .true

/-- Control enters the body of a loop that is started in the state. -/
def LoopEntered (M : SqlMeaning S) (σ : S) (region : LoopRegion) : Prop :=
  match region.loopKind with
  | .while => ∀ text ∈ region.conditionText, M.truth σ text = .true
  | .repeat => True
  | .loop => True
  | .for => ∀ text ∈ region.conditionText, M.hasRow σ text = true

/-- The texts are search conditions, and in every state their atoms, folded to upper case and single
blanks, are read over some values of the symbols with the truth they have. String literals or
delimited identifiers that differ only by what the folding forgets are not read so. -/
def ReadFaithfully (M : SqlMeaning S) (texts : List String) : Prop :=
  (∀ text ∈ texts, (scan text).tokens = (M.conditionOf text).tokens) ∧
    ∀ σ, ∃ I : AtomReading, ∀ text ∈ texts, ∀ atom ∈ (M.conditionOf text).atoms,
      M.atomTruth σ atom = readAtoms (I.truth ∘ foldAtom) atom

end SqlMeaning

theorem SqlMeaning.ReadFaithfully.truth_parsePredicate {S : Type} {M : SqlMeaning S}
    {texts : List String} (h : M.ReadFaithfully texts) (σ : S) :
    ∃ I : AtomReading, ∀ text ∈ texts, exprTruth (I.truth ∘ foldAtom)
    (parsePredicate text) = M.truth σ text := by
  obtain ⟨htokens, hatoms⟩ := h
  obtain ⟨I, hI⟩ := hatoms σ
  refine ⟨I, fun text htext => ?_⟩
  rw [parsePredicate, htokens text htext, truth_parseTokens]
  exact (OrCond.truth_congr _ (hI text htext)).symm

/-- The conditions that decide about an arm. -/
def armTexts (arms : List IfArm) (index : Nat) : List String :=
  (arms.take index).filterMap IfArm.condition? ++
    (arms[index]?.bind IfArm.condition?).toList

/-- The operands of an arm's predicate with what control needs of them: an earlier condition is not
TRUE, so its negation is not FALSE. -/
def armOperands (arms : List IfArm) (index : Nat) : List (PredicateExpr × Need) :=
  ((arms.take index).filterMap IfArm.condition?).map
      (fun text => (.not (parsePredicate text), .notFalse)) ++
    (arms[index]?.bind IfArm.condition?).toList.map fun text => (parsePredicate text, .isTrue)

/-- In a branch where demands exclude each other, settled demands do. -/
def ContradictionsSettled (os : List (PredicateExpr × Need)) : Prop :=
  ∀ b ∈ operandDemands os, Contradictory (erase b) → Contradictory (erase (settledPart b))

theorem not_met_of_contradictions (hos : ∀ o ∈ os, o.2.negated = false) {bs : List Branch}
    (hbs : branches (.combineAnd (os.map Prod.fst)) false = some bs)
    (hall : ∀ b ∈ bs, (contradictionOf b).isSome) (hsettled : ContradictionsSettled os) :
    ¬ ∀ o ∈ os, o.2.Meets (exprTruth (I.truth ∘ foldAtom) o.1) := by
  intro hmeets
  obtain ⟨children, hchildren, hproduct⟩ := branches_combineAnd hbs
  obtain ⟨b, hb, hmet⟩ := exists_met_operands hmeets
  have hmem : [] ++ erase b ∈ bs :=
    mem_operands hos hchildren hproduct (List.mem_singleton_self _) hb
  exact not_contradictory_of_holds (holds_settledPart hmet)
    (hsettled b hb (contradictionOf_isSome_iff.mp (hall _ hmem)))

omit [Text.CaseMap] in
theorem settledPart_eq_self {branch : List Demand} (h : ∀ d ∈ branch, d.2 ≠ .notFalse) :
    settledPart branch = branch := by
  rw [settledPart, List.filter_eq_self]
  intro d hd
  simp [isSettled, h d hd]

mutual

theorem demandBranches_strong (e : PredicateExpr) {n : Need} (hn : n.strong = true)
    {b : List Demand} (hb : b ∈ demandBranches e n) : ∀ d ∈ b, d.2.strong = true := by
  cases e with
  | atomic text => obtain rfl := List.mem_singleton.1 hb; simpa using hn
  | unknown text => obtain rfl := List.mem_singleton.1 hb; simpa using hn
  | «true» => cases n <;> simp [demandBranches, Need.negated] at hb <;> simp [hb]
  | «false» => cases n <;> simp [demandBranches, Need.negated] at hb <;> simp [hb]
  | not e => exact demandBranches_strong e (by cases n <;> simp_all [Need.strong, Need.flip]) hb
  | and es =>
    simp only [demandBranches] at hb
    split at hb
    · exact demandUnion_strong es hn hb
    · exact demandProduct_strong es hn hb
  | or es =>
    simp only [demandBranches] at hb
    split at hb
    · exact demandProduct_strong es hn hb
    · exact demandUnion_strong es hn hb

theorem demandUnion_strong (es : List PredicateExpr) {n : Need} (hn : n.strong = true)
    {b : List Demand} (hb : b ∈ demandUnion es n) : ∀ d ∈ b, d.2.strong = true := by
  cases es with
  | nil => cases hb
  | cons e es =>
    rcases List.mem_append.1 hb with hb | hb
    · exact demandBranches_strong e hn hb
    · exact demandUnion_strong es hn hb

theorem demandProduct_strong (es : List PredicateExpr) {n : Need} (hn : n.strong = true)
    {b : List Demand} (hb : b ∈ demandProduct es n) : ∀ d ∈ b, d.2.strong = true := by
  cases es with
  | nil => obtain rfl := List.mem_singleton.1 hb; simp
  | cons e es =>
    obtain ⟨x, hx, hb⟩ := List.mem_flatMap.1 hb
    obtain ⟨y, hy, rfl⟩ := List.mem_map.1 hb
    intro d hd
    rcases List.mem_append.1 hd with hd | hd
    · exact demandBranches_strong e hn hx d hd
    · exact demandProduct_strong es hn hy d hd

end

theorem not_true_of_flagged {e : PredicateExpr} (h : assess e = .obviousContradiction) :
    exprTruth (I.truth ∘ foldAtom) e ≠ .true := by
  intro htrue
  obtain ⟨bs, hbs, hall⟩ := assess_flagged h
  obtain ⟨b, hb, hmet⟩ := exists_met e (n := .isTrue) htrue
  have hstrong := demandBranches_strong e (n := .isTrue) rfl hb
  have hself : settledPart b = b := by
    refine settledPart_eq_self fun d hd hneed => ?_
    have := hstrong d hd
    rw [hneed] at this
    cases this
  have hsome := hall _ (mem_branches e (n := .isTrue) hbs hb)
  rw [← hself, contradictionOf_isSome_iff] at hsome
  exact not_contradictory_of_holds (holds_settledPart hmet) hsome

/-- A flagged arm whose contradiction is settled is never entered. -/
theorem not_armEntered {S : Type} {M : SqlMeaning S} {arms : List IfArm} {index : Nat}
    {p : PredicateExpr} (hp : armPredicate arms index = some p)
    (hflagged : assess p = .obviousContradiction) (hread : M.ReadFaithfully (armTexts arms index))
    (hsettled : ContradictionsSettled (armOperands arms index)) (σ : S) :
    ¬ M.ArmEntered σ arms index := by
  rintro ⟨arm, harm, hprior, hown⟩
  obtain ⟨I, hI⟩ := hread.truth_parsePredicate σ
  obtain ⟨bs, hbs, hall⟩ := assess_flagged hflagged
  have hpriors : ∀ text ∈ (arms.take index).filterMap IfArm.condition?,
      exprTruth (I.truth ∘ foldAtom) (parsePredicate text) ≠ .true := by
    intro text htext
    rw [hI text (List.mem_append_left _ htext)]
    exact hprior text htext
  have howns : ∀ text ∈ IfArm.condition? arm,
    exprTruth (I.truth ∘ foldAtom) (parsePredicate text) = .true := by
    intro text htext
    rw [hI text (List.mem_append_right _ (by simpa [harm] using htext))]
    exact hown text htext
  have hmeets : ∀ o ∈ armOperands arms index, o.2.Meets (exprTruth (I.truth ∘ foldAtom) o.1) := by
    intro o ho
    rcases List.mem_append.1 ho with ho | ho
    · obtain ⟨text, htext, rfl⟩ := List.mem_map.1 ho
      intro hfalse
      apply hpriors text htext
      simpa [exprTruth] using hfalse
    · obtain ⟨text, htext, rfl⟩ := List.mem_map.1 ho
      exact howns text (by simpa [harm] using htext)
  have hnonneg : ∀ o ∈ armOperands arms index, o.2.negated = false := by
    intro o ho
    rcases List.mem_append.1 ho with ho | ho
    · obtain ⟨text, -, rfl⟩ := List.mem_map.1 ho
      rfl
    · obtain ⟨text, -, rfl⟩ := List.mem_map.1 ho
      rfl
  have hroot : p = .combineAnd ((armOperands arms index).map Prod.fst) ∨ p = .true := by
    simp only [armPredicate, harm, Option.some.injEq] at hp
    split at hp
    · exact .inr hp.symm
    · refine .inl (hp.symm.trans ?_)
      simp [armOperands, harm, Function.comp_def]
  rcases hroot with rfl | rfl
  · exact not_met_of_contradictions hnonneg hbs hall hsettled hmeets
  · obtain rfl := Option.some.inj hbs
    exact absurd (hall [] (List.mem_singleton_self _)) (by decide)

/-- The flagged regions that control indeed never enters. Of an arm it is enough that its texts are
read faithfully and that its contradictions are settled; of a loop other than a FOR, that it is a
WHILE: a REPEAT enters its body before its condition is ever tested. -/
theorem flagged_never_entered {S : Type} [Inhabited S] (M : SqlMeaning S) :
    (∀ (arms : List IfArm) (index : Nat) (p : PredicateExpr), armPredicate arms index = some p →
      assess p = .obviousContradiction → M.ReadFaithfully (armTexts arms index) →
      ContradictionsSettled (armOperands arms index) → ∀ σ, ¬ M.ArmEntered σ arms index) ∧
    ∀ (region : LoopRegion) (p : PredicateExpr), loopPredicate region = some p →
      assess p = .obviousContradiction → M.ReadFaithfully region.conditionText.toList →
      region.loopKind ≠ .for →
        ((∀ σ, ¬ M.LoopEntered σ region) ↔ region.loopKind = .while) := by
  refine ⟨fun arms index p hp hflagged hread hsettled σ =>
    not_armEntered hp hflagged hread hsettled σ, ?_⟩
  intro region p hp hflagged hread hfor
  obtain ⟨text, htext, rfl⟩ := Option.map_eq_some_iff.1 hp
  have hcondition : region.conditionText = some text := (Option.filter_eq_some_iff.1 htext).1
  constructor
  · intro hnever
    cases hkind : region.loopKind with
    | «while» => rfl
    | loop => exact absurd (by simp [SqlMeaning.LoopEntered, hkind]) (hnever default)
    | «repeat» => exact absurd (by simp [SqlMeaning.LoopEntered, hkind]) (hnever default)
    | «for» => exact absurd hkind hfor
  · intro hkind σ hentered
    obtain ⟨I, hI⟩ := hread.truth_parsePredicate σ
    apply not_true_of_flagged (I := I) hflagged
    rw [hI text (by simp [hcondition])]
    simp only [SqlMeaning.LoopEntered, hkind] at hentered
    exact hentered text hcondition

end Folded

/-! ## NULL under two negations -/

local instance asciiConditions : Text.CaseMap := Text.asciiCase

def xIsOne : AtomTokens := ⟨(scan "X = 1").tokens, by decide +kernel⟩

def oneIsZero : AtomTokens := ⟨(scan "1 = 0").tokens, by decide +kernel⟩

def negation (offset : Nat) : Keyword "NOT" :=
  ⟨⟨.word, "NOT", "NOT", offset⟩, rfl, by simp, by simp⟩

def parenthesis (text : String) (offset : Nat) : Parenthesis text :=
  ⟨⟨.symbol, text, text, offset⟩, rfl, rfl⟩

/-- `NOT (X = 1)` -/
def xIsNotOne : SearchCondition :=
  .one (.one (.not (negation 0) (.group (parenthesis "(" 4)
    (.one
      (.one (.atom ⟨xIsOne.1.map fun t => { t with offset := t.offset + 5 }, by decide +kernel⟩)))
    (parenthesis ")" 10))))

def symbolReading (σ : String → Option (ℚ × List Char)) : AtomReading := ⟨σ, fun _ => .unknown⟩

/-- The meaning of the three conditions over values of the variables. -/
def variableMeaning : SqlMeaning (String → Option (ℚ × List Char)) where
  conditionOf text :=
    if text = "X = 1" then .one (.one (.atom xIsOne))
    else if text = "1 = 0" then .one (.one (.atom oneIsZero))
    else xIsNotOne
  atomTruth σ atom := readAtoms ((symbolReading σ).truth ∘ foldAtom) atom
  hasRow _ _ := false

theorem scan_xIsNotOne : (scan "NOT (X = 1)").tokens = xIsNotOne.tokens := by decide +kernel

theorem variableMeaning_readFaithfully {texts : List String}
    (h : ∀ text ∈ texts, text ∈ ["X = 1", "1 = 0", "NOT (X = 1)"]) :
    variableMeaning.ReadFaithfully texts := by
  refine ⟨fun text htext => ?_, fun σ => ⟨symbolReading σ, fun _ _ _ _ => by
    simp only [variableMeaning]⟩⟩
  have hcases := h text htext
  simp only [List.mem_cons, List.not_mem_nil, or_false] at hcases
  rcases hcases with rfl | rfl | rfl
  · rfl
  · rfl
  · exact scan_xIsNotOne

/-- `IF X = 1 … ELSEIF X = 1 …` -/
def repeatedArms : List IfArm :=
  [{ armId := "a0", armKind := .if, conditionText := some "X = 1" },
   { armId := "a1", armKind := .elseif, conditionText := some "X = 1" }]

/-- `WHILE 1 = 0 DO …` -/
def idleLoop : LoopRegion := { loopKind := .while, conditionText := some "1 = 0" }

/-- Both are flagged, and neither is entered. -/
theorem repeated_condition_never_entered :
    (∀ σ, ¬ variableMeaning.ArmEntered σ repeatedArms 1) ∧
      ∀ σ, ¬ variableMeaning.LoopEntered σ idleLoop := by
  constructor
  · exact (flagged_never_entered variableMeaning).1 repeatedArms 1 _ rfl (by decide +kernel)
      (variableMeaning_readFaithfully (by decide +kernel))
      (by unfold ContradictionsSettled; decide +kernel)
  · exact ((flagged_never_entered variableMeaning).2 idleLoop _ rfl (by decide +kernel)
      (variableMeaning_readFaithfully (by decide +kernel)) (by decide)).2 rfl

/-- `IF NOT (X = 1) … ELSEIF X = 1 … ELSE …` -/
def exhaustiveArms : List IfArm :=
  [{ armId := "a0", armKind := .if, conditionText := some "NOT (X = 1)" },
   { armId := "a1", armKind := .elseif, conditionText := some "X = 1" },
   { armId := "a2", armKind := .else, conditionText := none }]

/-- The ELSE is flagged, and entered when `X` is NULL; and a REPEAT is flagged that runs its
body. -/
theorem flagged_else_entered :
    (∃ p, armPredicate exhaustiveArms 2 = some p ∧ assess p = .obviousContradiction ∧
      variableMeaning.ArmEntered (fun _ => none) exhaustiveArms 2) ∧
    ∃ p, loopPredicate { loopKind := .repeat, conditionText := some "1 = 0" } = some p ∧
      assess p = .obviousContradiction ∧ variableMeaning.LoopEntered (fun _ => none)
        { loopKind := .repeat, conditionText := some "1 = 0" } := by
  refine ⟨⟨_, rfl, by decide +kernel, _, rfl, ?_, ?_⟩, _, rfl, by decide +kernel, trivial⟩
  · decide +kernel
  · decide +kernel

end AtlasDb.Semantics
