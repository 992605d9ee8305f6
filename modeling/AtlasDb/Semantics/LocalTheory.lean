import AtlasDb.Lib.Assoc
import AtlasDb.Semantics.Conditions
import Mathlib.Algebra.Order.Ring.Rat

/-!
# The local comparison theory

What an atomic condition says in SQL once it has one of the shapes the evaluator knows. The
evaluator finds a contradiction in a branch exactly when an atom is required and rejected, a
comparison of literals comes out otherwise, or two literals say of one variable what excludes each
other (`contradictionOf_isSome_iff`). Among literals that hold together there is none
(`not_contradictory_of_holds`): a required atom is one that is TRUE, a rejected one is only not
TRUE.
-/

namespace AtlasDb.Semantics

open Core Lib Parsing Analysis

/-! ## Readings -/

/-- What the loop of `_contradiction` sees in an atom. -/
inductive AtomShape where
  | literal (value : Bool)
  | nullTest (symbol : String) (isNull : Bool)
  | comparison (symbol : String) (op : Comparison) (value : ℚ)
  | stringEquality (symbol : String) (equal : Bool) (value : List Char)
  | other
deriving DecidableEq

def shapeOf (text : String) : AtomShape :=
  match literalTruth text with
  | some value => .literal value
  | none =>
    match nullTestOf text with
    | some (symbol, isNull) => .nullTest symbol isNull
    | none =>
      match comparisonOf text, stringEqualityOf text with
      | some (symbol, op, value), _ => .comparison symbol op value
      | none, some (symbol, equal, value) => .stringEquality symbol equal value
      | none, none => .other

/-- Values for the symbols, `none` for NULL: as a number and as the string literal that spells it,
each for the comparisons of its kind. The atoms outside the theory are given their truth. -/
structure AtomReading where
  value : String → Option (ℚ × List Char)
  other : String → Truth

namespace AtomReading

/-- The truth of an atom; a comparison with NULL is unknown. -/
def truth (I : AtomReading) (text : String) : Truth :=
  match shapeOf text with
  | .literal value => .ofBool value
  | .nullTest symbol isNull => .ofBool ((I.value symbol).isNone == isNull)
  | .comparison symbol op value =>
    match I.value symbol with
    | none => .unknown
    | some v => .ofBool (op.holds v.1 value)
  | .stringEquality symbol equal value =>
    match I.value symbol with
    | none => .unknown
    | some v => .ofBool (decide (v.2 = value) == equal)
  | .other => I.other text

/-- A required atom is TRUE, a rejected one is not. -/
def Holds (I : AtomReading) (l : AtomLiteral) : Prop :=
  if l.negated then I.truth l.text ≠ .true else I.truth l.text = .true

end AtomReading

/-! ## What literals say of a variable -/

/-- A variable is NULL or not, or compares with a constant. -/
inductive Fact where
  | null (symbol : String) (isNull : Bool)
  | number (symbol : String) (op : Comparison) (value : ℚ)
  | string (symbol : String) (equal : Bool) (value : List Char)
deriving DecidableEq

/-- What the evaluator takes from a literal: a comparison only where it is required. -/
def factOf (l : AtomLiteral) : Option Fact :=
  match shapeOf l.text, l.negated with
  | .nullTest symbol isNull, negated => some (.null symbol (isNull != negated))
  | .comparison symbol op value, false => some (.number symbol op value)
  | .stringEquality symbol equal value, false => some (.string symbol equal value)
  | _, _ => none

/-- Two facts of a variable that no value meets: NULL and not, a constant it equals that fails the
other comparison, or a lower bound that is above an upper bound, or at it unless both are
inclusive. -/
inductive Fact.Excludes : Fact → Fact → Prop
  | null (symbol : String) : Excludes (.null symbol true) (.null symbol false)
  | number {symbol : String} {op : Comparison} {v w : ℚ} (h : op.holds v w = false) :
      Excludes (.number symbol .eq v) (.number symbol op w)
  | bounds {symbol : String} {lower upper : Comparison} {v w : ℚ} (hlower : lower = .gt ∨
    lower = .ge)
      (hupper : upper = .lt ∨ upper = .le) (hle : w ≤ v) (hopen : v = w → lower = .gt ∨
        upper = .lt) :
      Excludes (.number symbol lower v) (.number symbol upper w)
  | string {symbol : String} {equal : Bool} {v w : List Char}
    (h : (decide (v = w) == equal) = false) :
      Excludes (.string symbol true v) (.string symbol equal w)

/-- The literals of the branch that the evaluator sees to exclude each other. -/
inductive Contradictory (b : Branch) : Prop
  | sameAtom {text : String} (hrequired : ⟨text, false⟩ ∈ b) (hrejected : ⟨text, true⟩ ∈ b)
  | literal {l : AtomLiteral} (hl : l ∈ b) (h : shapeOf l.text = .literal l.negated)
  | facts {l l' : AtomLiteral} {f f' : Fact} (hl : l ∈ b) (hl' : l' ∈ b) (hf : factOf l = some f)
      (hf' : factOf l' = some f') (h : f.Excludes f')

/-! ## The records hold the facts -/

def NumericRecord.Has (r : NumericRecord) : Comparison → ℚ → Prop
  | .eq, v => r.equal = some v
  | .ne, v => v ∈ r.notEqual
  | .gt, v => (v, false) ∈ r.lowers
  | .ge, v => (v, true) ∈ r.lowers
  | .lt, v => (v, false) ∈ r.uppers
  | .le, v => (v, true) ∈ r.uppers

def StringRecord.Has (r : StringRecord) : Bool → List Char → Prop
  | true, v => r.equal = some v
  | false, v => v ∈ r.notEqual

def BranchRecords.Has (s : BranchRecords) : Fact → Prop
  | .null symbol isNull => isNull ∈ (s.nullStates.lookup symbol).getD []
  | .number symbol op v => NumericRecord.Has ((s.numeric.lookup symbol).getD {}) op v
  | .string symbol equal v => StringRecord.Has ((s.strings.lookup symbol).getD {}) equal v

structure BranchRecords.KeysDistinct (s : BranchRecords) : Prop where
  nullStates : (s.nullStates.map Prod.fst).Nodup
  numeric : (s.numeric.map Prod.fst).Nodup
  strings : (s.strings.map Prod.fst).Nodup

section Entries

variable {α : Type} {key : String} {default : α} {f : α → α} {entries : List (String × α)}

theorem lookup_updateEntry (symbol : String) :
    (updateEntry key default f entries).lookup symbol =
      if symbol = key then some (f ((entries.lookup key).getD default))
      else entries.lookup symbol := by
  induction entries with
  | nil => by_cases h : symbol = key <;> simp [updateEntry, List.lookup_cons, h, beq_eq_decide]
  | cons entry entries ih =>
    obtain ⟨k, a⟩ := entry
    by_cases hk : k = key
    · subst hk
      by_cases h : symbol = k <;> simp [updateEntry, List.lookup_cons, h, beq_eq_decide]
    · have hk' : key ≠ k := fun heq => hk heq.symm
      simp only [updateEntry, hk, if_false, List.lookup_cons, ih, beq_eq_decide, hk', decide_false]
      by_cases h : symbol = k
      · subst h
        simp [hk]
      · simp [h]

theorem map_fst_updateEntry : (updateEntry key default f entries).map Prod.fst =
    if key ∈ entries.map Prod.fst then entries.map Prod.fst else entries.map Prod.fst ++ [key] := by
  induction entries with
  | nil => rfl
  | cons entry entries ih =>
    obtain ⟨k, a⟩ := entry
    by_cases hk : k = key
    · simp [updateEntry, hk]
    · have hk' : key ≠ k := fun heq => hk heq.symm
      rw [updateEntry, if_neg hk, List.map_cons, ih]
      by_cases h : key ∈ entries.map Prod.fst
      · rw [if_pos h, List.map_cons, if_pos (List.mem_cons_of_mem _ h)]
      · rw [if_neg h, List.map_cons, if_neg (by simpa [hk'] using h)]
        rfl

theorem nodup_updateEntry (h : (entries.map Prod.fst).Nodup) :
    ((updateEntry key default f entries).map Prod.fst).Nodup := by
  rw [map_fst_updateEntry]
  split
  · exact h
  · next hkey =>
      refine List.nodup_append.mpr ⟨h, by simp, fun k hk k' hk' heq => hkey ?_⟩
      rw [← List.mem_singleton.mp hk', ← heq]
      exact hk

end Entries

/-- The loop on one literal that is no comparison of literals. -/
def BranchRecords.addFact (s : BranchRecords) : Fact → Except Contradiction BranchRecords
  | .null symbol isNull =>
    .ok { s with nullStates := updateEntry symbol [] (isNull :: ·) s.nullStates }
  | .number symbol op v => addComparison symbol op v s
  | .string symbol equal v => addString symbol equal v s

variable {s : BranchRecords} {bounds : List (ℚ × Bool)}

theorem addLiteral_literal {l : AtomLiteral} {value : Bool} (h : shapeOf l.text = .literal value) :
    addLiteral s l = if value = l.negated then .error (.literalFalse l.text) else .ok s := by
  unfold addLiteral
  unfold shapeOf at h
  cases hliteral : literalTruth l.text with
  | some v =>
    rw [hliteral] at h
    obtain rfl := AtomShape.literal.inj h
    rfl
  | none =>
    rw [hliteral] at h
    dsimp only at h
    split at h
    · cases h
    · split at h <;> cases h

theorem addLiteral_fact {l : AtomLiteral} (h : ∀ value, shapeOf l.text ≠ .literal value) :
    addLiteral s l = match factOf l with
      | some f => BranchRecords.addFact s f
      | none => .ok s := by
  obtain ⟨text, negated⟩ := l
  unfold addLiteral factOf
  unfold shapeOf at h ⊢
  dsimp only at h ⊢
  cases hliteral : literalTruth text with
  | some value => simp [hliteral] at h
  | none =>
    cases nullTestOf text with
    | some test => rfl
    | none =>
      cases comparisonOf text with
      | some c => cases negated <;> rfl
      | none => cases stringEqualityOf text <;> cases negated <;> rfl

theorem has_addFact {s s' : BranchRecords} {f : Fact} (h : BranchRecords.addFact s f = .ok s')
    (g : Fact) : BranchRecords.Has s' g ↔ BranchRecords.Has s g ∨ g = f := by
  cases f with
  | null symbol isNull =>
    obtain rfl := Except.ok.inj h
    cases g with
    | null other state =>
      by_cases hsymbol : other = symbol
      · subst hsymbol
        simp [BranchRecords.Has, lookup_updateEntry, or_comm]
      · simp [BranchRecords.Has, lookup_updateEntry, hsymbol]
    | number other op v => simp [BranchRecords.Has]
    | string other equal v => simp [BranchRecords.Has]
  | number symbol op v =>
    change addComparison symbol op v s = .ok s' at h
    unfold addComparison at h
    split at h
    · cases h
    · next hguard =>
        obtain rfl := Except.ok.inj h
        cases g with
        | null other state => simp [BranchRecords.Has]
        | string other equal w => simp [BranchRecords.Has]
        | number other op' w =>
          by_cases hsymbol : other = symbol
          · subst hsymbol
            simp only [BranchRecords.Has, lookup_updateEntry, if_true, Option.getD_some,
              Fact.number.injEq, true_and]
            generalize hr : (s.numeric.lookup other).getD {} = r
            have hequal : op = .eq → ∀ w, r.equal = some w → w = v := by
              rintro rfl w hw
              by_contra hne
              refine hguard ⟨rfl, ?_⟩
              cases hlookup : s.numeric.lookup other with
              | none => simp [hlookup] at hr; simp [← hr] at hw
              | some r' =>
                obtain rfl : r' = r := by simpa [hlookup] using hr
                simp [hw, hne]
            cases op <;> cases op' <;>
              simp [NumericRecord.Has, NumericRecord.add, or_comm, eq_comm]
            intro hw
            exact (hequal rfl w hw).symm
          · simp [BranchRecords.Has, lookup_updateEntry, hsymbol]
  | string symbol equal v =>
    change addString symbol equal v s = .ok s' at h
    unfold addString at h
    split at h
    · cases h
    · next hguard =>
        obtain rfl := Except.ok.inj h
        cases g with
        | null other state => simp [BranchRecords.Has]
        | number other op w => simp [BranchRecords.Has]
        | string other equal' w =>
          by_cases hsymbol : other = symbol
          · subst hsymbol
            simp only [BranchRecords.Has, lookup_updateEntry, if_true, Option.getD_some,
              Fact.string.injEq, true_and]
            generalize hr : (s.strings.lookup other).getD {} = r
            have hequal : equal = true → ∀ w, r.equal = some w → w = v := by
              rintro rfl w hw
              by_contra hne
              refine hguard ⟨rfl, ?_⟩
              cases hlookup : s.strings.lookup other with
              | none => simp [hlookup] at hr; simp [← hr] at hw
              | some r' =>
                obtain rfl : r' = r := by simpa [hlookup] using hr
                simp [hw, hne]
            cases equal <;> cases equal' <;>
              simp [StringRecord.Has, StringRecord.add, or_comm, eq_comm]
            intro hw
            exact (hequal rfl w hw).symm
          · simp [BranchRecords.Has, lookup_updateEntry, hsymbol]

theorem keysDistinct_addFact {s s' : BranchRecords} {f : Fact} (hs : BranchRecords.KeysDistinct s)
    (h : BranchRecords.addFact s f = .ok s') : BranchRecords.KeysDistinct s' := by
  obtain ⟨hnull, hnumeric, hstrings⟩ := hs
  cases f with
  | null symbol isNull =>
    obtain rfl := Except.ok.inj h
    exact ⟨nodup_updateEntry hnull, hnumeric, hstrings⟩
  | number symbol op v =>
    change addComparison symbol op v s = .ok s' at h
    unfold addComparison at h
    split at h
    · cases h
    · obtain rfl := Except.ok.inj h
      exact ⟨hnull, nodup_updateEntry hnumeric, hstrings⟩
  | string symbol equal v =>
    change addString symbol equal v s = .ok s' at h
    unfold addString at h
    split at h
    · cases h
    · obtain rfl := Except.ok.inj h
      exact ⟨hnull, hnumeric, nodup_updateEntry hstrings⟩

/-- The loop stops at a fact that another one excludes. -/
theorem addFact_error {f : Fact} {reason : Contradiction}
    (h : BranchRecords.addFact s f = .error reason) : ∃ g, BranchRecords.Has s g ∧
    g.Excludes f := by
  cases f with
  | null symbol isNull => cases h
  | number symbol op v =>
    change addComparison symbol op v s = .error reason at h
    unfold addComparison at h
    split at h
    · next hguard =>
        obtain ⟨rfl, hany⟩ := hguard
        obtain ⟨old, hold, hne⟩ := (Option.any_eq_true _ _).mp hany
        obtain ⟨r, hr, hequal⟩ := Option.bind_eq_some_iff.mp hold
        refine ⟨.number symbol .eq old, ?_, .number (by simpa [Comparison.holds] using hne)⟩
        simpa [BranchRecords.Has, NumericRecord.Has, hr] using hequal
    · cases h
  | string symbol equal v =>
    change addString symbol equal v s = .error reason at h
    unfold addString at h
    split at h
    · next hguard =>
        obtain ⟨rfl, hany⟩ := hguard
        obtain ⟨old, hold, hne⟩ := (Option.any_eq_true _ _).mp hany
        obtain ⟨r, hr, hequal⟩ := Option.bind_eq_some_iff.mp hold
        refine ⟨.string symbol true old, ?_, .string (by simpa using hne)⟩
        simpa [BranchRecords.Has, StringRecord.Has, hr] using hequal
    · cases h

theorem factOf_literal {l : AtomLiteral} {value : Bool} (h : shapeOf l.text = .literal value) :
    factOf l = none := by
  unfold factOf
  rw [h]

/-- The records after the loop hold the facts of the branch. -/
theorem foldlM_addLiteral_ok {b : Branch} {s s' : BranchRecords}
    (h : b.foldlM addLiteral s = .ok s') :
    (∀ l ∈ b, shapeOf l.text ≠ .literal l.negated) ∧
      (BranchRecords.KeysDistinct s → BranchRecords.KeysDistinct s') ∧
      ∀ g, BranchRecords.Has s' g ↔ BranchRecords.Has s g ∨ ∃ l ∈ b, factOf l = some g := by
  induction b generalizing s with
  | nil =>
    obtain rfl := Except.ok.inj h
    simp
  | cons l b ih =>
    rw [List.foldlM_cons, Except.bind_eq_ok] at h
    obtain ⟨mid, hmid, hrest⟩ := h
    obtain ⟨hfree, hkeys, hhas⟩ := ih hrest
    by_cases hliteral : ∃ value, shapeOf l.text = .literal value
    · obtain ⟨value, hshape⟩ := hliteral
      rw [addLiteral_literal hshape] at hmid
      split at hmid
      · cases hmid
      · next hvalue =>
          obtain rfl := Except.ok.inj hmid
          refine ⟨List.forall_mem_cons.mpr ⟨?_, hfree⟩, hkeys, fun g => ?_⟩
          · rw [hshape]
            exact fun heq => hvalue (AtomShape.literal.inj heq)
          · simp [hhas g, factOf_literal hshape]
    · rw [addLiteral_fact fun value hvalue => hliteral ⟨value, hvalue⟩] at hmid
      have hfirst : shapeOf l.text ≠ .literal l.negated := fun heq => hliteral ⟨_, heq⟩
      cases hfact : factOf l with
      | none =>
        rw [hfact] at hmid
        obtain rfl := Except.ok.inj hmid
        exact ⟨List.forall_mem_cons.mpr ⟨hfirst, hfree⟩, hkeys, fun g => by simp [hhas g, hfact]⟩
      | some f =>
        rw [hfact] at hmid
        refine ⟨List.forall_mem_cons.mpr ⟨hfirst, hfree⟩,
          fun hs => hkeys (keysDistinct_addFact hs hmid), fun g => ?_⟩
        rw [hhas g, has_addFact hmid]
        simp [hfact, or_assoc, eq_comm]

theorem foldlM_error {σ ε α : Type} {step : σ → α → Except ε σ} {xs : List α} {s : σ} {e : ε}
    (h : xs.foldlM step s = .error e) : ∃ front x back s', xs = front ++ x :: back ∧
      front.foldlM step s = .ok s' ∧ step s' x = .error e := by
  induction xs generalizing s with
  | nil => cases h
  | cons x xs ih =>
    rw [List.foldlM_cons] at h
    cases hstep : step s x with
    | error e' =>
      rw [hstep] at h
      obtain rfl := Except.error.inj h
      exact ⟨[], x, xs, s, rfl, rfl, hstep⟩
    | ok mid =>
      rw [hstep] at h
      obtain ⟨front, y, back, s', rfl, hfront, hy⟩ := ih h
      exact ⟨x :: front, y, back, s', rfl, by rw [List.foldlM_cons, hstep]; exact hfront, hy⟩

theorem hasNone_empty (f : Fact) : ¬ BranchRecords.Has {} f := by
  cases f with
  | null symbol isNull => exact List.not_mem_nil
  | number symbol op v => cases op <;> simp [BranchRecords.Has, NumericRecord.Has]
  | string symbol equal v => cases equal <;> simp [BranchRecords.Has, StringRecord.Has]

/-- The loop breaks off at literals that exclude each other. -/
theorem contradictory_of_error {b : Branch} {reason : Contradiction}
    (h : b.foldlM addLiteral ({} : BranchRecords) = .error reason) : Contradictory b := by
  obtain ⟨front, l, back, s, rfl, hfront, hl⟩ := foldlM_error h
  obtain ⟨-, -, hhas⟩ := foldlM_addLiteral_ok hfront
  have hmem : l ∈ front ++ l :: back := by simp
  by_cases hliteral : ∃ value, shapeOf l.text = .literal value
  · obtain ⟨value, hshape⟩ := hliteral
    rw [addLiteral_literal hshape] at hl
    split at hl
    · next hvalue => exact .literal hmem (hvalue ▸ hshape)
    · cases hl
  · rw [addLiteral_fact fun value hvalue => hliteral ⟨value, hvalue⟩] at hl
    cases hfact : factOf l with
    | none =>
      rw [hfact] at hl
      cases hl
    | some f =>
      rw [hfact] at hl
      obtain ⟨g, hg, hexcludes⟩ := addFact_error hl
      rcases (hhas g).mp hg with hempty | ⟨k, hk, hkg⟩
      · exact absurd hempty (hasNone_empty g)
      · exact .facts (List.mem_append_left _ hk) hmem hkg hfact hexcludes

/-! ## The checks after the loop -/

/-- The choice of a fold is a member, and no other one is better. -/
theorem foldl_best {α : Type} (lt : α → α → Prop) [DecidableRel lt] (hirrefl : ∀ a, ¬ lt a a)
    (htrans : ∀ a b c, lt a b → lt b c → lt a c) (hsplit : ∀ a b c, lt a c → lt a b ∨ lt b c)
    (b : α) (bounds : List α) :
    bounds.foldl (fun best c => if lt best c then c else best) b ∈ b :: bounds ∧
      ∀ c ∈ b :: bounds, ¬ lt (bounds.foldl (fun best c => if lt best c then c else best) b) c := by
  induction bounds generalizing b with
  | nil => simpa using hirrefl b
  | cons c bounds ih =>
    obtain ⟨hmem, hbest⟩ := ih (if lt b c then c else b)
    rw [List.foldl_cons]
    generalize bounds.foldl (fun best c => if lt best c then c else best)
      (if lt b c then c else b) = r at hmem hbest
    obtain ⟨hfirst, hrest⟩ := List.forall_mem_cons.mp hbest
    by_cases hlt : lt b c
    · rw [if_pos hlt] at hmem hfirst
      exact ⟨List.mem_cons_of_mem _ hmem, List.forall_mem_cons.mpr
        ⟨fun hr => hfirst (htrans _ _ _ hr hlt), List.forall_mem_cons.mpr ⟨hfirst, hrest⟩⟩⟩
    · rw [if_neg hlt] at hmem hfirst
      refine ⟨?_, List.forall_mem_cons.mpr ⟨hfirst, List.forall_mem_cons.mpr ⟨fun hr => ?_, hrest⟩⟩⟩
      · rcases List.mem_cons.mp hmem with rfl | hmem
        · exact List.mem_cons_self
        · exact List.mem_cons_of_mem _ (List.mem_cons_of_mem _ hmem)
      · exact (hsplit _ b _ hr).elim hfirst hlt

theorem greatestLower_spec {l : ℚ × Bool} (h : greatestLower bounds = some l) :
    l ∈ bounds ∧ ∀ c ∈ bounds, ¬ (l.1 < c.1 ∨ (l.1 = c.1 ∧ l.2 = true ∧ c.2 = false)) := by
  cases bounds with
  | nil => cases h
  | cons b bounds =>
    rw [← Option.some.inj h]
    exact foldl_best (fun b c : ℚ × Bool => b.1 < c.1 ∨ (b.1 = c.1 ∧ b.2 = true ∧ c.2 = false))
      (by grind) (by grind) (by grind) b bounds

theorem leastUpper_spec {u : ℚ × Bool} (h : leastUpper bounds = some u) :
    u ∈ bounds ∧ ∀ c ∈ bounds, ¬ (c.1 < u.1 ∨ (u.1 = c.1 ∧ u.2 = true ∧ c.2 = false)) := by
  cases bounds with
  | nil => cases h
  | cons b bounds =>
    rw [← Option.some.inj h]
    exact foldl_best (fun b c : ℚ × Bool => c.1 < b.1 ∨ (b.1 = c.1 ∧ b.2 = true ∧ c.2 = false))
      (by grind) (by grind) (by grind) b bounds

theorem greatestLower_eq_none : greatestLower bounds = none ↔ bounds = [] := by
  cases bounds <;> simp [greatestLower]

theorem leastUpper_eq_none : leastUpper bounds = none ↔ bounds = [] := by
  cases bounds <;> simp [leastUpper]

theorem has_lower {r : NumericRecord} {v : ℚ} {inclusive : Bool} :
    (v, inclusive) ∈ r.lowers ↔ NumericRecord.Has r (if inclusive then .ge else .gt) v := by
  cases inclusive <;> rfl

theorem has_upper {r : NumericRecord} {v : ℚ} {inclusive : Bool} :
    (v, inclusive) ∈ r.uppers ↔ NumericRecord.Has r (if inclusive then .le else .lt) v := by
  cases inclusive <;> rfl

/-- The checks of a record find the facts in it that exclude each other. -/
theorem numericContradiction_isSome {symbol : String} {r : NumericRecord} :
    (numericContradiction symbol r).isSome = true ↔
      ∃ op v op' w, NumericRecord.Has r op v ∧ NumericRecord.Has r op' w ∧
        (Fact.number symbol op v).Excludes (.number symbol op' w) := by
  have hchecks : (numericContradiction symbol r).isSome = true ↔
      (∃ v, r.equal = some v ∧ v ∈ r.notEqual) ∨
      (∃ l u, greatestLower r.lowers = some l ∧ leastUpper r.uppers = some u ∧
        (l.1 > u.1 ∨ (l.1 = u.1 ∧ ¬ (l.2 = true ∧ u.2 = true)))) ∨
      (∃ v l, r.equal = some v ∧ greatestLower r.lowers = some l ∧
        (v < l.1 ∨ (v = l.1 ∧ l.2 = false))) ∨
      ∃ v u, r.equal = some v ∧ leastUpper r.uppers = some u ∧
        (v > u.1 ∨ (v = u.1 ∧ u.2 = false)) := by
    unfold numericContradiction
    cases r.equal <;> cases greatestLower r.lowers <;> cases leastUpper r.uppers <;>
      simp <;> grind
  rw [hchecks]
  constructor
  · rintro (⟨v, hv, hmem⟩ | ⟨⟨l, li⟩, ⟨u, ui⟩, hl, hu, hcross⟩ | ⟨v, ⟨l, li⟩, hv, hl, hlow⟩ |
      ⟨v, ⟨u, ui⟩, hv, hu, hhigh⟩)
    · exact ⟨.eq, v, .ne, v, hv, hmem, .number (by simp [Comparison.holds])⟩
    · refine ⟨_, l, _, u, has_lower.mp (greatestLower_spec hl).1,
        has_upper.mp (leastUpper_spec hu).1, ?_⟩
      refine .bounds ?_ ?_ ?_ ?_ <;> grind
    · refine ⟨.eq, v, _, l, hv, has_lower.mp (greatestLower_spec hl).1, .number ?_⟩
      cases li <;> simp [Comparison.holds] <;> grind
    · refine ⟨.eq, v, _, u, hv, has_upper.mp (leastUpper_spec hu).1, .number ?_⟩
      cases ui <;> simp [Comparison.holds] <;> grind
  · rintro ⟨op, v, op', w, hv, hw, hexcludes⟩
    have hlower (x : ℚ) (inclusive : Bool) (hx : (x, inclusive) ∈ r.lowers) :
        ∃ l, greatestLower r.lowers = some l ∧
          ¬ (l.1 < x ∨ (l.1 = x ∧ l.2 = true ∧ inclusive = false)) := by
      cases hl : greatestLower r.lowers with
      | none => rw [greatestLower_eq_none.mp hl] at hx; cases hx
      | some l => exact ⟨l, rfl, (greatestLower_spec hl).2 _ hx⟩
    have hupper (x : ℚ) (inclusive : Bool) (hx : (x, inclusive) ∈ r.uppers) :
        ∃ u, leastUpper r.uppers = some u ∧
          ¬ (x < u.1 ∨ (u.1 = x ∧ u.2 = true ∧ inclusive = false)) := by
      cases hu : leastUpper r.uppers with
      | none => rw [leastUpper_eq_none.mp hu] at hx; cases hx
      | some u => exact ⟨u, rfl, (leastUpper_spec hu).2 _ hx⟩
    cases hexcludes with
    | number h =>
      cases op' with
      | eq => 
          obtain rfl : v = w := Option.some.inj (hv.symm.trans hw)
          simp [Comparison.holds] at h
      | ne => 
          obtain rfl : v = w := by simpa [Comparison.holds] using h
          exact .inl ⟨v, hv, hw⟩
      | gt =>
        obtain ⟨l, hl, hbest⟩ := hlower w false hw
        refine .inr (.inr (.inl ⟨v, l, hv, hl, ?_⟩))
        simp [Comparison.holds] at h
        grind
      | ge =>
        obtain ⟨l, hl, hbest⟩ := hlower w true hw
        refine .inr (.inr (.inl ⟨v, l, hv, hl, ?_⟩))
        simp [Comparison.holds] at h
        grind
      | lt =>
        obtain ⟨u, hu, hbest⟩ := hupper w false hw
        refine .inr (.inr (.inr ⟨v, u, hv, hu, ?_⟩))
        simp [Comparison.holds] at h
        grind
      | le =>
        obtain ⟨u, hu, hbest⟩ := hupper w true hw
        refine .inr (.inr (.inr ⟨v, u, hv, hu, ?_⟩))
        simp [Comparison.holds] at h
        grind
    | bounds hop hop' hle hopen =>
      have hv' : ∃ inclusive, (v, inclusive) ∈ r.lowers ∧ (inclusive = true → op = .ge) := by
        rcases hop with rfl | rfl
        · exact ⟨false, hv, nofun⟩
        · exact ⟨true, hv, fun _ => rfl⟩
      have hw' : ∃ inclusive, (w, inclusive) ∈ r.uppers ∧ (inclusive = true → op' = .le) := by
        rcases hop' with rfl | rfl
        · exact ⟨false, hw, nofun⟩
        · exact ⟨true, hw, fun _ => rfl⟩
      obtain ⟨vi, hv', hvi⟩ := hv'
      obtain ⟨wi, hw', hwi⟩ := hw'
      obtain ⟨l, hl, hlbest⟩ := hlower v vi hv'
      obtain ⟨u, hu, hubest⟩ := hupper w wi hw'
      refine .inr (.inl ⟨l, u, hl, hu, ?_⟩)
      grind

theorem stringContradiction_isSome {symbol : String} {r : StringRecord} :
    (stringContradiction symbol r).isSome = true ↔
      ∃ equal v equal' w, StringRecord.Has r equal v ∧ StringRecord.Has r equal' w ∧
        (Fact.string symbol equal v).Excludes (.string symbol equal' w) := by
  have hcheck : (stringContradiction symbol r).isSome = true ↔
      ∃ v, r.equal = some v ∧ v ∈ r.notEqual := by
    unfold stringContradiction
    cases r.equal <;> simp
  rw [hcheck]
  constructor
  · rintro ⟨v, hv, hmem⟩
    exact ⟨true, v, false, v, hv, hmem, .string (by simp)⟩
  · rintro ⟨equal, v, equal', w, hv, hw, hexcludes⟩
    cases hexcludes with
    | string h =>
      cases equal' with
      | true =>
        obtain rfl : v = w := Option.some.inj (hv.symm.trans hw)
        simp at h
      | false =>
        obtain rfl : v = w := by simpa using h
        exact ⟨v, hv, hw⟩

theorem findSome?_isSome {α β : Type} {entries : List (String × α)} {check : String × α → Option β}
    (default : α) (hnodup : (entries.map Prod.fst).Nodup)
    (hdefault : ∀ key, check (key, default) = none) :
    (entries.findSome? check).isSome = true ↔
      ∃ key, (check (key, (entries.lookup key).getD default)).isSome = true := by
  rw [List.findSome?_isSome_iff]
  constructor
  · rintro ⟨⟨key, a⟩, hentry, hsome⟩
    exact ⟨key, by rwa [lookup_of_mem_of_nodup hnodup hentry]⟩
  · rintro ⟨key, hsome⟩
    cases hlookup : entries.lookup key with
    | none => simp [hlookup, hdefault] at hsome
    | some a => exact ⟨(key, a), mem_of_lookup hlookup, by simpa [hlookup] using hsome⟩

theorem recordsContradiction_isSome (hs : BranchRecords.KeysDistinct s) :
    (recordsContradiction s).isSome = true ↔
      ∃ f g, BranchRecords.Has s f ∧ BranchRecords.Has s g ∧ f.Excludes g := by
  rw [recordsContradiction, Option.isSome_or, Option.isSome_or, Bool.or_eq_true, Bool.or_eq_true,
    findSome?_isSome [] hs.nullStates fun _ => rfl,
    findSome?_isSome {} hs.numeric fun _ => rfl,
    findSome?_isSome {} hs.strings fun _ => rfl]
  simp only [numericContradiction_isSome, stringContradiction_isSome]
  constructor
  · rintro
      (⟨symbol, h⟩ | ⟨symbol, op, v, op', w, hv, hw, h⟩ | ⟨symbol, equal, v, equal', w, hv, hw, h⟩)
    · split at h
      · next hboth => exact ⟨.null symbol true, .null symbol false, hboth.1, hboth.2, .null symbol⟩
      · cases h
    · exact ⟨.number symbol op v, .number symbol op' w, hv, hw, h⟩
    · exact ⟨.string symbol equal v, .string symbol equal' w, hv, hw, h⟩
  · rintro ⟨f, g, hf, hg, h⟩
    cases h with
    | null symbol => exact .inl ⟨symbol, by rw [if_pos ⟨hf, hg⟩]; rfl⟩
    | @number symbol op v w h => exact .inr (.inl ⟨symbol, .eq, v, op, w, hf, hg, .number h⟩)
    | @bounds symbol lower upper v w hlower hupper hle hopen =>
      exact .inr (.inl ⟨symbol, lower, v, upper, w, hf, hg, .bounds hlower hupper hle hopen⟩)
    | @string symbol equal v w h => exact .inr (.inr ⟨symbol, true, v, equal, w, hf, hg, .string h⟩)

theorem overlapOf_isSome {b : Branch} :
    (overlapOf b).isSome = true ↔ ∃ text, ⟨text, false⟩ ∈ b ∧ ⟨text, true⟩ ∈ b := by
  have hmem (text : String) (negated : Bool) :
      text ∈ (b.filter fun l => l.negated == negated).map AtomLiteral.text ↔
      ⟨text, negated⟩ ∈ b := by
    simp only [List.mem_map, List.mem_filter, beq_iff_eq]
    constructor
    · rintro ⟨⟨_, _⟩, ⟨hl, rfl⟩, rfl⟩
      exact hl
    · exact fun h => ⟨_, ⟨h, rfl⟩, rfl⟩
  have hpositive := fun text => hmem text false
  have hnegative := fun text => hmem text true
  simp only [beq_false, beq_true] at hpositive hnegative
  rw [overlapOf, List.isSome_head?, ne_eq, List.eq_nil_iff_forall_not_mem]
  push Not
  simp only [List.mem_insertionSort, List.mem_filter, hpositive, decide_eq_true_eq, hnegative]

/-- **What the evaluator sees**: it finds a contradiction in a branch exactly if literals of the
branch exclude each other. -/
theorem contradictionOf_isSome_iff {b : Branch} :
    (contradictionOf b).isSome = true ↔ Contradictory b := by
  rw [contradictionOf]
  cases hoverlap : overlapOf b with
  | some text =>
    obtain ⟨text, hrequired, hrejected⟩ := overlapOf_isSome.mp (by rw [hoverlap]; rfl)
    exact iff_of_true rfl (.sameAtom hrequired hrejected)
  | none =>
    have hsame : ¬ ∃ text, ⟨text, false⟩ ∈ b ∧ ⟨text, true⟩ ∈ b := by
      rw [← overlapOf_isSome, hoverlap]
      simp
    cases hfold : b.foldlM addLiteral ({} : BranchRecords) with
    | error reason => exact iff_of_true rfl (contradictory_of_error hfold)
    | ok s =>
      obtain ⟨hfree, hkeys, hhas⟩ := foldlM_addLiteral_ok hfold
      have hfact (g : Fact) : BranchRecords.Has s g ↔ ∃ l ∈ b, factOf l = some g := by
        rw [hhas g, or_iff_right (hasNone_empty g)]
      dsimp only
      rw [recordsContradiction_isSome (hkeys ⟨List.nodup_nil, List.nodup_nil, List.nodup_nil⟩)]
      simp only [hfact]
      constructor
      · rintro ⟨f, g, ⟨l, hl, hf⟩, ⟨l', hl', hg⟩, h⟩
        exact .facts hl hl' hf hg h
      · intro h
        cases h with
        | sameAtom hrequired hrejected => exact absurd ⟨_, hrequired, hrejected⟩ hsame
        | literal hl h => exact absurd h (hfree _ hl)
        | facts hl hl' hf hg h => exact ⟨_, _, ⟨_, hl, hf⟩, ⟨_, hl', hg⟩, h⟩

instance {b : Branch} : Decidable (Contradictory b) := decidable_of_iff _ contradictionOf_isSome_iff

/-! ## Literals that hold together -/

namespace AtomReading

variable {I : AtomReading}

/-- The fact is so in the reading. -/
def Meets (I : AtomReading) : Fact → Prop
  | .null symbol isNull => (I.value symbol).isNone = isNull
  | .number symbol op v => ∃ x ∈ I.value symbol, op.holds x.1 v = true
  | .string symbol equal v => ∃ x ∈ I.value symbol, (decide (x.2 = v) == equal) = true

/-- A literal that holds makes its fact true. -/
theorem meets_of_holds {l : AtomLiteral} {f : Fact} (hl : I.Holds l) (hf : factOf l = some f) :
    I.Meets f := by
  obtain ⟨text, negated⟩ := l
  unfold Holds truth at hl
  unfold factOf at hf
  dsimp only at hl hf
  cases hshape : shapeOf text with
  | literal value => simp [hshape] at hf
  | other => simp [hshape] at hf
  | nullTest symbol isNull =>
    rw [hshape] at hl hf
    obtain rfl := Option.some.inj hf
    show (I.value symbol).isNone = _
    cases hv : (I.value symbol).isNone <;> cases isNull <;> cases negated <;>
      simp [hv, Truth.ofBool] at hl <;> rfl
  | comparison symbol op v =>
    cases negated with
    | true => simp [hshape] at hf
    | false =>
      rw [hshape] at hl hf
      obtain rfl := Option.some.inj hf
      cases hv : I.value symbol with
      | none => simp [hv] at hl
      | some x =>
        refine ⟨x, hv, ?_⟩
        cases hop : op.holds x.1 v <;> simp [hv, hop, Truth.ofBool] at hl ⊢
  | stringEquality symbol equal v =>
    cases negated with
    | true => simp [hshape] at hf
    | false =>
      rw [hshape] at hl hf
      obtain rfl := Option.some.inj hf
      cases hv : I.value symbol with
      | none => simp [hv] at hl
      | some x =>
        refine ⟨x, hv, ?_⟩
        cases heq : (decide (x.2 = v) == equal) <;> simp [hv, heq, Truth.ofBool] at hl ⊢

theorem not_meets_of_excludes {f g : Fact} (h : f.Excludes g) (hf : I.Meets f) (hg : I.Meets g) :
    False := by
  cases h with
  | null symbol => exact Bool.false_ne_true (hg.symm.trans hf)
  | number h =>
    obtain ⟨x, hx, hop⟩ := hf
    obtain ⟨y, hy, hop'⟩ := hg
    obtain rfl : x = y := Option.some.inj (hx.symm.trans hy)
    have heq := of_decide_eq_true hop
    rw [heq, h] at hop'
    cases hop'
  | bounds hlower hupper hle hopen =>
    obtain ⟨x, hx, hop⟩ := hf
    obtain ⟨y, hy, hop'⟩ := hg
    obtain rfl : x = y := Option.some.inj (hx.symm.trans hy)
    rcases hlower with rfl | rfl <;> rcases hupper with rfl | rfl <;>
      simp [Comparison.holds] at hop hop' <;> grind
  | string h =>
    obtain ⟨x, hx, hop⟩ := hf
    obtain ⟨y, hy, hop'⟩ := hg
    obtain rfl : x = y := Option.some.inj (hx.symm.trans hy)
    obtain rfl : x.2 = _ := by simpa using hop
    rw [h] at hop'
    cases hop'

end AtomReading

theorem not_contradictory_of_holds {I : AtomReading} {b : Branch} (hb : ∀ l ∈ b, I.Holds l) :
    ¬ Contradictory b := by
  intro h
  cases h with
  | sameAtom hrequired hrejected => exact hb _ hrejected (hb _ hrequired)
  | @literal l hl h =>
    have htruth := hb l hl
    unfold AtomReading.Holds AtomReading.truth at htruth
    rw [h] at htruth
    cases hnegated : l.negated <;> simp [hnegated, Truth.ofBool] at htruth
  | facts hl hl' hf hg h =>
    exact AtomReading.not_meets_of_excludes h (AtomReading.meets_of_holds (hb _ hl) hf)
      (AtomReading.meets_of_holds (hb _ hl') hg)

end AtlasDb.Semantics
