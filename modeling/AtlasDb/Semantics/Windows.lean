import AtlasDb.Analysis.WindowReachability
import AtlasDb.Semantics.Satisfiability

/-!
# Predicates over variables that are NULL

The window analysis takes a predicate for a contradiction as soon as one of its positive atoms asks
a NULL variable not to be NULL. That is so if the atom is required in every branch of the predicate;
an atom that is one of several alternatives, or only a part of a longer atom, requires nothing.
-/

namespace AtlasDb.Semantics

open Core Lib Parsing Analysis Patterns

/-! ## What the analysis looks for -/

/-- A word ends, or begins, between the texts. -/
def WordEnds (letters : Letters) (left right : List Char) : Prop :=
  left.getLast?.any letters.isWord ≠ right.head?.any letters.isWord

/-- The text spells the words, one blank or more between each two of them. -/
inductive SpellsAll (letters : Letters) : List String → List Char → Prop
  | last {word : String} {text : List Char} (h : Spells letters word text) :
  SpellsAll letters [word] text
  | next {word : String} {words : List String} {text gap rest : List Char}
    (h : Spells letters word text)
      (hgap : gap ≠ []) (hblank : ∀ c ∈ gap, Text.isSpace c = true)
      (hrest : SpellsAll letters words rest) :
      SpellsAll letters (word :: words) (text ++ (gap ++ rest))

/-- In the text there is `symbol IS NOT NULL`, between ends of words. -/
def HasNotNullTest (letters : Letters) (symbol : String) (text : List Char) : Prop :=
  ∃ left test right, text = left ++ (test ++ right) ∧
    SpellsAll letters [symbol, "IS", "NOT", "NULL"] test ∧
    WordEnds letters left (test ++ right) ∧ WordEnds letters (left ++ test) right

theorem not_hasNotNullTest_nil {letters : Letters} {symbol : String} :
    ¬ HasNotNullTest letters symbol [] := by
  rintro ⟨left, test, right, htext, hspells, -⟩
  obtain ⟨-, htext⟩ := List.append_eq_nil_iff.mp htext.symm
  obtain ⟨rfl, -⟩ := List.append_eq_nil_iff.mp htext
  generalize htest : ([] : List Char) = test at hspells
  cases hspells with
  | next _ hgap =>
    obtain ⟨-, hrest⟩ := List.append_eq_nil_iff.mp htest.symm
    exact hgap (List.append_eq_nil_iff.mp hrest).1

/-- The atom stands in the expression, under an even number of negations or under an odd one. -/
inductive StandsIn (text : String) : Bool → PredicateExpr → Prop
  | atomic : StandsIn text true (.atomic text)
  | unknown : StandsIn text true (.unknown text)
  | not {even : Bool} {e : PredicateExpr} (h : StandsIn text (!even) e) : StandsIn text
    even (.not e)
  | and {even : Bool} {e : PredicateExpr} {es : List PredicateExpr} (he : e ∈ es)
      (h : StandsIn text even e) : StandsIn text even (.and es)
  | or {even : Bool} {e : PredicateExpr} {es : List PredicateExpr} (he : e ∈ es)
      (h : StandsIn text even e) : StandsIn text even (.or es)

section Atoms

variable {text : String}

theorem mem_leaf {atom : String} {even : Bool} :
    text ∈ (if even && atom ≠ "" then [atom] else []) ↔ text ≠ "" ∧ even = true ∧ atom = text := by
  cases even with
  | false => simp
  | true =>
    by_cases hatom : atom = ""
    · simp only [hatom, ne_eq, not_true_eq_false, decide_false, Bool.and_false,
        Bool.false_eq_true, if_false, List.not_mem_nil, false_iff]
      rintro ⟨hne, -, rfl⟩
      exact hne rfl
    · simp only [hatom, ne_eq, not_false_eq_true, decide_true, Bool.and_true, if_true,
        List.mem_singleton, true_and]
      constructor
      · rintro rfl
        exact ⟨hatom, rfl⟩
      · exact fun h => h.2.symm

mutual

/-- The atoms collected are those under an even number of negations. -/
theorem mem_positiveAtoms (e : PredicateExpr) (even : Bool) :
    text ∈ positiveAtoms e even ↔ text ≠ "" ∧ StandsIn text even e := by
  cases e with
  | not e =>
    rw [positiveAtoms, mem_positiveAtoms e (!even)]
    refine and_congr_right fun _ => ⟨.not, fun h => ?_⟩
    cases h with
    | not h => exact h
  | and es =>
    rw [positiveAtoms, mem_positiveAtomsOf es even]
    refine and_congr_right fun _ => ⟨fun ⟨e, he, h⟩ => .and he h, fun h => ?_⟩
    cases h with
    | and he h => exact ⟨_, he, h⟩
  | or es =>
    rw [positiveAtoms, mem_positiveAtomsOf es even]
    refine and_congr_right fun _ => ⟨fun ⟨e, he, h⟩ => .or he h, fun h => ?_⟩
    cases h with
    | or he h => exact ⟨_, he, h⟩
  | atomic atom =>
    rw [positiveAtoms, mem_leaf]
    refine and_congr_right fun _ => ⟨fun ⟨heven, hatom⟩ => ?_, fun h => ?_⟩
    · rw [heven, hatom]
      exact .atomic
    · cases h with
      | atomic => exact ⟨rfl, rfl⟩
  | unknown atom =>
    rw [positiveAtoms, mem_leaf]
    refine and_congr_right fun _ => ⟨fun ⟨heven, hatom⟩ => ?_, fun h => ?_⟩
    · rw [heven, hatom]
      exact .unknown
    · cases h with
      | unknown => exact ⟨rfl, rfl⟩
  | «true» =>
    rw [positiveAtoms]
    refine iff_of_false List.not_mem_nil fun ⟨_, h⟩ => ?_
    cases h
  | «false» =>
    rw [positiveAtoms]
    refine iff_of_false List.not_mem_nil fun ⟨_, h⟩ => ?_
    cases h

theorem mem_positiveAtomsOf (es : List PredicateExpr) (even : Bool) :
    text ∈ positiveAtomsOf es even ↔ text ≠ "" ∧ ∃ e ∈ es, StandsIn text even e := by
  cases es with
  | nil => simp [positiveAtomsOf]
  | cons e es =>
    rw [positiveAtomsOf, List.mem_append, mem_positiveAtoms e even, mem_positiveAtomsOf es even,
      List.exists_mem_cons_iff, and_or_left]

end

end Atoms

section Letters

variable {letters : Letters} {groups : Pattern.Groups Char}

theorem matches_spaces_iff {prev : Option Char} {read rest : List Char} :
    spaces.Matches prev read rest groups ↔
      (read ≠ [] ∧ ∀ c ∈ read, Text.isSpace c = true) ∧ groups = [] := by
  constructor
  · intro h
    refine ⟨⟨?_, blank_of_spaces h⟩, h.groups_eq_nil groupFree_spaces⟩
    obtain ⟨_, _, _, _, rfl, -, ⟨⟨x, -, rfl⟩, -⟩, -⟩ := h
    exact List.cons_ne_nil _ _
  · rintro ⟨⟨hne, hblank⟩, rfl⟩
    obtain ⟨x, xs, rfl⟩ := List.exists_cons_of_ne_nil hne
    refine ⟨[x], xs, [], [], rfl, rfl, ⟨⟨x, hblank x List.mem_cons_self, rfl⟩, rfl⟩, ?_⟩
    exact Pattern.matches_star_one_iff.mpr ⟨fun c hc => hblank c (List.mem_cons_of_mem _ hc), rfl⟩

theorem matches_boundary_iff {left read rest : List Char} :
    letters.boundary.Matches left.getLast? read rest groups ↔
      WordEnds letters left rest ∧ read = [] ∧ groups = [] := by
  unfold Letters.boundary WordEnds
  rw [Pattern.Matches, bne_iff_ne]

/-- One word and blanks, and what comes then. -/
theorem matches_seq_word {word : String} {p : Pattern Char} {prev : Option Char}
    {read rest : List Char} :
    (Pattern.seq (letters.word word) (.seq spaces p)).Matches prev read rest groups ↔
      ∃ text gap tail, read = text ++ (gap ++ tail) ∧ Spells letters word text ∧
        (gap ≠ [] ∧ ∀ c ∈ gap, Text.isSpace c = true) ∧
        p.Matches (Pattern.before prev (text ++ gap)) tail rest groups := by
  constructor
  · rintro ⟨text, _, _, _, rfl, rfl, hword, gap, tail, _, _, rfl, rfl, hgap, hp⟩
    obtain ⟨hspells, rfl⟩ := matches_word_iff.mp hword
    obtain ⟨hblank, rfl⟩ := matches_spaces_iff.mp hgap
    rw [Pattern.before_append] at hp
    rw [List.append_nil, List.append_nil]
    exact ⟨text, gap, tail, rfl, hspells, hblank, hp⟩
  · rintro ⟨text, gap, tail, rfl, hspells, hblank, hp⟩
    rw [← Pattern.before_append] at hp
    refine ⟨text, gap ++ tail, [], groups, rfl, (List.append_nil _).symm,
      matches_word_iff.mpr ⟨hspells, rfl⟩, gap, tail, [], groups, rfl, (List.append_nil _).symm,
      matches_spaces_iff.mpr ⟨hblank, rfl⟩, hp⟩

/-- The words with blanks between them, and what comes then. -/
def wordsThen (letters : Letters) (p : Pattern Char) : List String → Pattern Char
  | [] => p
  | [word] => .seq (letters.word word) p
  | word :: next :: words =>
    .seq (letters.word word) (.seq spaces (wordsThen letters p (next :: words)))

/-- What a pattern of words matches. -/
theorem matches_wordsThen {words : List String} (hne : words ≠ []) {p : Pattern Char}
    {prev : Option Char} {read rest : List Char} :
    (wordsThen letters p words).Matches prev read rest groups ↔
      ∃ test tail, read = test ++ tail ∧ SpellsAll letters words test ∧
        p.Matches (Pattern.before prev test) tail rest groups := by
  induction words generalizing prev read with
  | nil => exact absurd rfl hne
  | cons word words ih =>
    cases words with
    | nil =>
      constructor
      · rintro ⟨text, tail, _, _, rfl, rfl, hword, hp⟩
        obtain ⟨hspells, rfl⟩ := matches_word_iff.mp hword
        rw [List.append_nil]
        exact ⟨text, tail, rfl, .last hspells, hp⟩
      · rintro ⟨test, tail, rfl, hspells, hp⟩
        cases hspells with
        | last hspells =>
          exact ⟨test, tail, [], groups, rfl, (List.append_nil _).symm,
            matches_word_iff.mpr ⟨hspells, rfl⟩, hp⟩
        | next _ _ _ hrest => cases hrest
    | cons next words =>
      rw [wordsThen, matches_seq_word]
      simp only [ih (List.cons_ne_nil next words)]
      constructor
      · rintro ⟨text, gap, _, rfl, hspells, hgap, test, tail, rfl, hrest, hp⟩
        rw [Pattern.before_append] at hp
        refine ⟨text ++ (gap ++ test), tail, by simp, .next hspells hgap.1 hgap.2 hrest, ?_⟩
        rwa [← List.append_assoc]
      · rintro ⟨_, tail, rfl, hspells, hp⟩
        cases hspells with
        | @next _ _ text gap test hspells hne hblank hrest =>
          refine ⟨text, gap, test ++ tail,
            by simp, hspells, ⟨hne, hblank⟩, test, tail, rfl, hrest, ?_⟩
          rwa [Pattern.before_append, List.append_assoc]

/-- The search finds such a test exactly if there is one in the text. -/
theorem asksNotNull_iff {symbol text : String} :
    asksNotNull letters symbol text = true ↔ HasNotNullTest letters symbol text.toList := by
  have hpattern : notNullTest letters symbol = .seq letters.boundary
      (wordsThen letters (.seq letters.boundary .empty) [symbol, "IS", "NOT", "NULL"]) := rfl
  have hlast (left : List Char) : Pattern.before none left = left.getLast? := Option.or_none
  rw [asksNotNull, Pattern.found_iff, hpattern]
  constructor
  · rintro ⟨left, read, right, groups, happ, first, second, _, _, rfl, -, hfirst, hsecond⟩
    rw [hlast] at hfirst hsecond
    obtain ⟨hends, rfl, rfl⟩ := matches_boundary_iff.mp hfirst
    obtain ⟨test, tail, rfl, hspells, _, _, _, _, rfl, -, hthird, rfl, -⟩ :=
      (matches_wordsThen (List.cons_ne_nil _ _)).mp hsecond
    rw [← hlast, Pattern.before_append, Pattern.before_append, hlast] at hthird
    obtain ⟨hends', rfl, -⟩ := matches_boundary_iff.mp hthird
    refine ⟨left, test, right, ?_, hspells, ?_, ?_⟩
    · simpa using happ.symm
    · simpa using hends
    · simpa using hends'
  · rintro ⟨left, test, right, htext, hspells, hends, hends'⟩
    refine ⟨left, test, right, [], htext.symm, [], test, [], [], rfl, rfl, ?_, ?_⟩
    · rw [hlast]
      exact matches_boundary_iff.mpr ⟨hends, rfl, rfl⟩
    · refine (matches_wordsThen (List.cons_ne_nil _ _)).mpr ⟨test, [], by simp, hspells, ?_⟩
      refine ⟨[], [], [], [], rfl, rfl, ?_, rfl, rfl⟩
      rw [Pattern.before_append, Pattern.before_append, hlast]
      exact matches_boundary_iff.mpr ⟨by simpa using hends', rfl, rfl⟩

/-! ## Findings -/

theorem contradictedSymbols_nil {nulls : List String} {root : PredicateExpr} :
    contradictedSymbols letters nulls root = [] ↔
      ∀ symbol ∈ nulls, ∀ text, StandsIn text true root →
        ¬ HasNotNullTest letters symbol text.toList := by
  unfold contradictedSymbols DynamicSql.sortedSet
  have hsort (xs : List String) :
      xs.dedup.insertionSort (fun a b => a.toList ≤ b.toList) = [] ↔ xs = [] := by
    rw [← List.length_eq_zero_iff, List.length_insertionSort, List.length_eq_zero_iff,
      List.dedup_eq_nil]
  rw [hsort, List.filter_eq_nil_iff]
  refine forall₂_congr fun symbol _ => ?_
  rw [List.any_eq_true]
  constructor
  · intro h text hstands htest
    refine h ⟨text, (mem_positiveAtoms root true).mpr ⟨?_, hstands⟩, asksNotNull_iff.mpr htest⟩
    rintro rfl
    exact not_hasNotNullTest_nil htest
  · rintro h ⟨text, htext, hasks⟩
    exact h text ((mem_positiveAtoms root true).mp htext).2 (asksNotNull_iff.mp hasks)

theorem windowFinding_isSome {known : List (String × List NodeRef)} {graph : PredicateGraph} :
    (windowFinding letters known graph).isSome = true ↔
      contradictedSymbols letters (known.map Prod.fst) graph.root ≠ [] := by
  unfold windowFinding
  dsimp only
  split
  · next h => simp [h]
  · next h => simp [h]

/-- **Contradictions from window functions.** A predicate with a finding is not TRUE under any
valuation in which the variables are NULL, exactly if `symbol IS NOT NULL` stands in no atom under
an even number of negations for any of them, or in every branch of the predicate the literals cannot
be met together while the variables are NULL: such a test is a literal of the branch, or they are in
each other's way otherwise. -/
theorem window_finding_sound_iff [Text.CaseMap] (letters : Letters)
    (known : List (String × List NodeRef)) (graph : PredicateGraph) :
    ((windowFinding letters known graph).isSome = true →
      ∀ V : Valuation, V.Knows (known.map Prod.fst) → V.exprTruth graph.root ≠ .true) ↔
      (∀ symbol ∈ known.map Prod.fst, ∀ text, StandsIn text true graph.root →
        ¬ HasNotNullTest letters symbol text.toList) ∨
      ∀ b ∈ expansion graph.root false, Unmeetable (known.map Prod.fst) (asWritten b) := by
  rw [windowFinding_isSome, ← contradictedSymbols_nil, ← never_true_iff, ne_eq, or_iff_not_imp_left]

end Letters

/-- `X IS NOT NULL OR Y = 1`. -/
def alternativeTest : PredicateGraph where
  predicateGraphId := "graph"
  root := .or [.atomic "X IS NOT NULL", .atomic "Y = 1"]
  sourceNodeRefs := []

local instance asciiWindows : Text.CaseMap := Text.asciiCase

/-- The predicate is reported for `X` and TRUE when `Y` is 1. -/
theorem alternative_test_reported :
    (windowFinding Letters.ascii [("X", [])] alternativeTest).isSome = true ∧
      ∃ V : Valuation, V.Knows ["X"] ∧ V.exprTruth alternativeTest.root = .true := by
  refine ⟨by decide +kernel, ⟨fun symbol => if symbol = "Y" then .number 1 else .null,
    fun _ => .unknown⟩, ?_, by decide +kernel⟩
  intro symbol hsymbol
  obtain rfl := List.mem_singleton.mp hsymbol
  rfl

end AtlasDb.Semantics
