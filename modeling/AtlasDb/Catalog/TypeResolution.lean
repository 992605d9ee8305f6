import AtlasDb.Catalog.Lineage
import AtlasDb.Fixtures.Compiler
import AtlasDb.Lib.Guarded
import Mathlib.Data.List.Sort

/-!
# Declared types and their reconciliation

`type_system/resolver.py` and the types of `catalog/providers.py`. A declared type and the type of a
catalog column are read from their texts; `resolve` takes the candidate whose source comes first in
a list of priorities. A source that is not on the list has no rank, and among candidates of one rank
the order of the arguments decides: the choice is independent of the order exactly when all
candidates have a rank and those of the best rank agree (`resolves_alike_iff`).
-/

namespace AtlasDb.Catalog

open Core
open AtlasDb.Fixtures (SqlTypeFamily)

/-! ## Types -/

inductive TypeResolutionStatus where
  | declared
  | catalogResolved
  | ddlResolved
  | authorityOverride
  | dialectInferred
  | conflict
  | unknown
deriving DecidableEq

def TypeResolutionStatus.value : TypeResolutionStatus → String
  | .declared => "DECLARED"
  | .catalogResolved => "CATALOG_RESOLVED"
  | .ddlResolved => "DDL_RESOLVED"
  | .authorityOverride => "AUTHORITY_OVERRIDE"
  | .dialectInferred => "DIALECT_INFERRED"
  | .conflict => "CONFLICT"
  | .unknown => "UNKNOWN"

inductive ResolutionCompleteness where
  | complete
  | incomplete
  | unknown
deriving DecidableEq

structure CanonicalSqlType where
  family : SqlTypeFamily
  databaseType : Chars
  length : Option Nat := none
  precision : Option Nat := none
  scale : Option Nat := none
  nullable : Option Bool := none
  distinctTypeName : Option Chars := none
  resolutionStatus : TypeResolutionStatus
  completeness : ResolutionCompleteness
  sourceRefs : List String
deriving DecidableEq

/-- The constraints of the fields and `validate_precision_scale`. -/
structure CanonicalSqlType.Valid (t : CanonicalSqlType) : Prop where
  length : ∀ n ∈ t.length, 1 ≤ n
  precision : ∀ n ∈ t.precision, 1 ≤ n
  scale : ∀ n ∈ t.scale, ∀ p ∈ t.precision, n ≤ p
  unknown : t.family = .unknown → t.resolutionStatus = .unknown

instance (t : CanonicalSqlType) : Decidable t.Valid :=
  decidable_of_iff ((∀ n ∈ t.length, 1 ≤ n) ∧ (∀ n ∈ t.precision, 1 ≤ n) ∧
      (∀ n ∈ t.scale, ∀ p ∈ t.precision, n ≤ p) ∧
      (t.family = .unknown → t.resolutionStatus = .unknown))
    ⟨fun h => ⟨h.1, h.2.1, h.2.2.1, h.2.2.2⟩, fun h => ⟨h.1, h.2, h.3, h.4⟩⟩

inductive TypeError where
  | validation
  | valueError (text : String)
deriving DecidableEq

/-- A type that has passed its validators. -/
abbrev SqlType : Type := { t : CanonicalSqlType // t.Valid }

/-- The constructor runs the validators. -/
def CanonicalSqlType.validated (t : CanonicalSqlType) : Except TypeError SqlType :=
  if h : t.Valid then .ok ⟨t, h⟩ else .error .validation

/-! ## Declared types -/

def familyMap : List (String × SqlTypeFamily) :=
  [("SMALLINT", .smallInteger), ("INTEGER", .integer), ("INT", .integer), ("BIGINT", .bigInteger),
    ("DECIMAL", .decimal), ("DEC", .decimal), ("NUMERIC", .decimal), ("REAL", .floatingPoint),
    ("DOUBLE", .floatingPoint), ("DOUBLE PRECISION", .floatingPoint), ("FLOAT", .floatingPoint),
    ("CHAR", .character), ("CHARACTER", .character), ("VARCHAR", .character),
    ("CHARACTER VARYING", .character), ("GRAPHIC", .graphic), ("VARGRAPHIC", .graphic),
    ("DATE", .date), ("TIME", .time), ("TIMESTAMP", .timestamp), ("BOOLEAN", .boolean),
    ("BINARY", .binary), ("VARBINARY", .binary), ("BLOB", .lob), ("CLOB", .lob), ("DBCLOB", .lob),
    ("XML", .xml)]

def isUpper (c : Char) : Bool := 'A' ≤ c && c ≤ 'Z'

def numberOf (digits : Chars) : Nat := digits.foldl (fun n c => 10 * n + (c.toNat - 48)) 0

/-- One or more digits, between blanks, and what follows. -/
def readNumber (text : Chars) : Option (Nat × Chars) :=
  let text := text.dropWhile Text.isSpace
  let digits := text.takeWhile Char.isDigit
  if digits = [] then none
  else some (numberOf digits, (text.drop digits.length).dropWhile Text.isSpace)

/-- The one or two numbers in parentheses a text begins with, read from behind the opening one. -/
def readNumbers (text : Chars) : Option (Nat × Option Nat) := do
  let (first, rest) ← readNumber text
  match rest with
  | ')' :: _ => some (first, none)
  | ',' :: rest =>
    let (second, rest) ← readNumber rest
    if rest.head? = some ')' then some (first, some second) else none
  | _ => none

/-- The groups of `_TYPE_RE` on a normalized text. -/
def matchType (text : Chars) : Option (Chars × Option Nat × Option Nat) :=
  if text.head?.any isUpper then
    let name := text.takeWhile fun c => isUpper c || c.isDigit || c = '_' || c = ' '
    match text.drop name.length with
    | '(' :: rest =>
      match readNumbers rest with
      | some (first, second) => some (Text.strip name, some first, second)
      | none => some (Text.strip name, none, none)
    | _ => some (Text.strip name, none, none)
  else none

/-- The families of which the number in parentheses is the length. -/
def hasLength (family : SqlTypeFamily) : Bool :=
  family = .character || family = .graphic || family = .binary || family = .lob

/-- `_FAMILY_MAP.get(database_type, SqlTypeFamily.DISTINCT)`. -/
def declaredFamily (databaseType : Chars) : SqlTypeFamily :=
  ((familyMap.find? fun entry => entry.1.toList = databaseType).map Prod.snd).getD .distinct

/-- `parse_declared_sql_type`. -/
def parseDeclaredSqlType (typeText : String) (sourceRef : String) : Except TypeError SqlType :=
  let normalized := (Text.normalized typeText).toList
  match matchType normalized with
  | none =>
    CanonicalSqlType.validated
      { family := .unknown
        databaseType := if normalized = [] then "UNKNOWN".toList else normalized
        resolutionStatus := .unknown
        completeness := .unknown
        sourceRefs := [sourceRef] }
  | some (databaseType, first, second) =>
    let family := declaredFamily databaseType
    CanonicalSqlType.validated
      { family
        databaseType
        length := if hasLength family then first else none
        precision := if family = .decimal then first else none
        scale := if family = .decimal then second else none
        distinctTypeName := if family = .distinct then some databaseType else none
        resolutionStatus := .declared
        completeness := if family = .distinct then .incomplete else .complete
        sourceRefs := [sourceRef] }

/-! ## Types of catalog columns -/

def startsWithAny (value : Chars) (starts : List String) : Bool :=
  starts.any fun start => start.toList.isPrefixOf value

/-- `_family`. -/
def familyOf (databaseType : Chars) : SqlTypeFamily :=
  let value := Text.strip (Text.upper databaseType)
  let isOneOf (names : List String) : Bool := names.any fun name => name.toList = value
  if isOneOf ["SMALLINT"] then .smallInteger
  else if isOneOf ["INTEGER", "INT"] then .integer
  else if isOneOf ["BIGINT"] then .bigInteger
  else if startsWithAny value ["DECIMAL", "NUMERIC", "DECFLOAT"] then .decimal
  else if startsWithAny value ["REAL", "DOUBLE", "FLOAT"] then .floatingPoint
  else if startsWithAny value ["CHAR", "VARCHAR", "CLOB"] then
    if startsWithAny value ["CLOB"] then .lob else .character
  else if startsWithAny value ["GRAPHIC", "VARGRAPHIC", "DBCLOB"] then
    if startsWithAny value ["DBCLOB"] then .lob else .graphic
  else if isOneOf ["DATE"] then .date
  else if isOneOf ["TIME"] then .time
  else if startsWithAny value ["TIMESTAMP"] then .timestamp
  else if isOneOf ["BOOLEAN"] then .boolean
  else if startsWithAny value ["BINARY", "VARBINARY", "BLOB"] then
    if startsWithAny value ["BLOB"] then .lob else .binary
  else if startsWithAny value ["XML"] then .xml
  else .unknown

/-- `value if value and value > 0 else None`. -/
def positive (value : Option Int) : Option Nat :=
  value.bind fun n => if 0 < n then some n.toNat else none

/-- `value if value is not None and value >= 0 else None`. -/
def nonNegative (value : Option Int) : Option Nat :=
  value.bind fun n => if 0 ≤ n then some n.toNat else none

/-- `_canonical_type`. -/
def canonicalType (databaseType : Chars) (length precision scale : Option Int)
    (nullable : Option Bool) (sourceRef : String) : Except TypeError SqlType :=
  let family := familyOf databaseType
  CanonicalSqlType.validated
    { family
      databaseType := Text.upper databaseType
      length := positive length
      precision := positive precision
      scale := nonNegative scale
      nullable
      resolutionStatus := if family = .unknown then .unknown else .catalogResolved
      completeness := if family = .unknown then .unknown else .complete
      sourceRefs := [sourceRef] }

/-! ## Resolution -/

def sourcePriority : List TypeResolutionStatus :=
  [.declared, .catalogResolved, .ddlResolved, .authorityOverride, .dialectInferred]

/-- `SOURCE_PRIORITY.index(value.resolution_status)`. -/
def sourceRank (t : CanonicalSqlType) : Except TypeError Nat :=
  match sourcePriority.idxOf? t.resolutionStatus with
  | some rank => .ok rank
  | none => .error (.valueError "tuple.index(x): x not in tuple")

structure TypeResolution where
  subjectRef : String
  resolvedType : CanonicalSqlType
  attemptedSources : List String
  selectedSource : Option String
  conflicts : List String := []
  blockers : List String := []

/-- What two candidates are compared by. -/
def CanonicalSqlType.signature (t : CanonicalSqlType) :
    SqlTypeFamily × Chars × Option Nat × Option Nat × Option Nat :=
  (t.family, t.databaseType, t.length, t.precision, t.scale)

/-- `sorted(values, key=...)`: the keys are all computed before anything is compared. -/
def ranked (values : List CanonicalSqlType) : Except TypeError (List (Nat × CanonicalSqlType)) := do
  let keyed ← values.mapM fun value => do
    let rank ← sourceRank value
    return (rank, value)
  return keyed.insertionSort fun a b => a.1 ≤ b.1

/-- The type reported when the candidates disagree. -/
def conflicting (selected : CanonicalSqlType) (values : List CanonicalSqlType) : CanonicalSqlType :=
  { selected with
    resolutionStatus := .conflict
    completeness := .incomplete
    sourceRefs := (values.flatMap CanonicalSqlType.sourceRefs).reverse.dedup.reverse }

/-- `TypeResolutionEngine.resolve`. -/
def resolveType (subjectRef : String) (values : List CanonicalSqlType) :
    Except TypeError TypeResolution :=
  let attemptedSources := values.map fun value => value.resolutionStatus.value
  if values = [] then
    .ok
      { subjectRef
        resolvedType :=
          { family := .unknown
            databaseType := "UNKNOWN".toList
            resolutionStatus := .unknown
            completeness := .unknown
            sourceRefs := [subjectRef] }
        attemptedSources
        selectedSource := none
        blockers := ["COLUMN_TYPE_UNRESOLVED"] }
  else do
    let order ← ranked values
    match order with
    | [] => .error (.valueError "tuple index out of range")
    | (_, selected) :: _ =>
      if 1 < (values.map CanonicalSqlType.signature).dedup.length then
        return {
          subjectRef
          resolvedType := conflicting selected values
          attemptedSources
          selectedSource := some selected.resolutionStatus.value
          conflicts := ["PARAMETER_COLUMN_TYPE_MISMATCH"]
          blockers := ["TYPE_RESOLUTION_CONFLICT"] }
      else
        return {
          subjectRef
          resolvedType := selected
          attemptedSources
          selectedSource := some selected.resolutionStatus.value }

/-! ## The candidate that is selected -/

/-- The source of the candidate is on the list of priorities. -/
def CanonicalSqlType.Ranked (t : CanonicalSqlType) : Prop := t.resolutionStatus ∈ sourcePriority

instance (t : CanonicalSqlType) : Decidable t.Ranked :=
  inferInstanceAs (Decidable (t.resolutionStatus ∈ sourcePriority))

/-- The place of the source on the list. -/
def CanonicalSqlType.rank (t : CanonicalSqlType) : Nat := sourcePriority.idxOf t.resolutionStatus

theorem sourceRank_of_ranked {t : CanonicalSqlType} (h : t.Ranked) : sourceRank t = .ok t.rank := by
  unfold CanonicalSqlType.Ranked at h
  unfold sourceRank CanonicalSqlType.rank
  revert h
  cases t.resolutionStatus with
  | conflict => exact fun h => absurd h (by decide)
  | unknown => exact fun h => absurd h (by decide)
  | _ => exact fun _ => rfl

theorem sourceRank_of_not_ranked {t : CanonicalSqlType} (h : ¬ t.Ranked) :
    ∃ e, sourceRank t = .error e := by
  unfold CanonicalSqlType.Ranked at h
  unfold sourceRank
  revert h
  cases t.resolutionStatus with
  | conflict => exact fun _ => ⟨_, rfl⟩
  | unknown => exact fun _ => ⟨_, rfl⟩
  | _ => exact fun h => absurd (by decide) h

theorem status_of_rank {t t' : CanonicalSqlType} (h : t.Ranked) (hrank : t.rank = t'.rank) :
    t.resolutionStatus = t'.resolutionStatus :=
  List.idxOf_inj h |>.mp hrank

/-- No candidate has a source of higher priority. -/
def Foremost (values : List CanonicalSqlType) (t : CanonicalSqlType) : Prop :=
  t ∈ values ∧ ∀ v ∈ values, t.rank ≤ v.rank

/-- Two candidates differ in family, name or size. -/
def Disagree (values : List CanonicalSqlType) : Prop :=
  ∃ v ∈ values, ∃ v' ∈ values, v.signature ≠ v'.signature

variable {values values' : List CanonicalSqlType} {t : CanonicalSqlType}

theorem Foremost.perm (h : Foremost values t) (hperm : values.Perm values') : Foremost values' t :=
  ⟨hperm.mem_iff.mp h.1, fun v hv => h.2 v (hperm.mem_iff.mpr hv)⟩

theorem Disagree.perm (h : Disagree values) (hperm : values.Perm values') : Disagree values' := by
  obtain ⟨v, hv, v', hv', hne⟩ := h
  exact ⟨v, hperm.mem_iff.mp hv, v', hperm.mem_iff.mp hv', hne⟩

/-- Two signatures mean that two values disagree. -/
theorem one_lt_signatures_iff :
    1 < (values.map CanonicalSqlType.signature).dedup.length ↔ Disagree values := by
  constructor
  · intro h
    obtain ⟨a, b, rest, hdedup⟩ :
        ∃ a b rest, (values.map CanonicalSqlType.signature).dedup = a :: b :: rest := by
      cases hdedup : (values.map CanonicalSqlType.signature).dedup with
      | nil => simp [hdedup] at h
      | cons a rest =>
        cases rest with
        | nil => simp [hdedup] at h
        | cons b rest => exact ⟨a, b, rest, rfl⟩
    have hnodup := (values.map CanonicalSqlType.signature).nodup_dedup
    have hmem : ∀ x ∈ (values.map CanonicalSqlType.signature).dedup, ∃ v ∈ values,
      v.signature = x :=
      fun x hx => List.mem_map.mp (List.mem_dedup.mp hx)
    rw [hdedup] at hnodup hmem
    obtain ⟨v, hv, rfl⟩ := hmem a (by simp)
    obtain ⟨v', hv', rfl⟩ := hmem b (by simp)
    refine ⟨v, hv, v', hv', fun heq => ?_⟩
    rw [heq] at hnodup
    simp at hnodup
  · rintro ⟨v, hv, v', hv', hne⟩
    by_contra hle
    obtain ⟨x, hx⟩ : ∃ x, ∀ y ∈ (values.map CanonicalSqlType.signature).dedup, y = x := by
      cases hdedup : (values.map CanonicalSqlType.signature).dedup with
      | nil => exact ⟨v.signature, fun y hy => nomatch hy⟩
      | cons x rest =>
        rw [hdedup, List.length_cons] at hle
        obtain rfl : rest = [] := List.length_eq_zero_iff.mp (by omega)
        exact ⟨x, fun y hy => List.mem_singleton.mp hy⟩
    have hmem : ∀ u ∈ values, u.signature = x := fun u hu =>
      hx _ (List.mem_dedup.mpr (List.mem_map_of_mem hu))
    exact hne ((hmem v hv).trans (hmem v' hv').symm)

instance (values : List CanonicalSqlType) : Decidable (Disagree values) :=
  decidable_of_iff _ one_lt_signatures_iff

/-- The candidates with their ranks, sorted. -/
def byRank (values : List CanonicalSqlType) : List (Nat × CanonicalSqlType) :=
  (values.map fun v => (v.rank, v)).insertionSort fun a b => a.1 ≤ b.1

theorem ranked_of_ranked (h : ∀ v ∈ values, v.Ranked) : ranked values = .ok (byRank values) := by
  have hkeyed : values.mapM (fun value => do
      let rank ← sourceRank value
      return (rank, value)) = (.ok (values.map fun v => (v.rank, v)) : Except TypeError _) := by
    rw [Lib.mapM_eq_ok, List.forall₂_map_right_iff, List.forall₂_same]
    intro v hv
    rw [sourceRank_of_ranked (h v hv)]
    rfl
  rw [ranked, hkeyed]
  rfl

theorem ranked_of_not_ranked (ht : t ∈ values) (h : ¬ t.Ranked) :
    ∃ e, ranked values = .error e := by
  obtain ⟨e, he⟩ := Lib.mapM_raises (f := fun value => do
      let rank ← sourceRank value
      return (rank, value)) ht (by
    obtain ⟨e, he⟩ := sourceRank_of_not_ranked h
    exact ⟨e, by rw [he]; rfl⟩)
  exact ⟨e, by rw [ranked, he]; rfl⟩

theorem foremost_of_byRank {rank : Nat} {rest : List (Nat × CanonicalSqlType)}
    (h : byRank values = (rank, t) :: rest) : Foremost values t := by
  have hsorted := List.pairwise_insertionSort
    (fun a b : Nat × CanonicalSqlType => a.1 ≤ b.1) (values.map fun v => (v.rank, v))
  have hmem : ∀ p, p ∈ (rank, t) :: rest ↔ p ∈ values.map fun v => (v.rank, v) := fun p => by
    rw [← h, byRank, List.mem_insertionSort]
  rw [← byRank, h, List.pairwise_cons] at hsorted
  obtain ⟨u, hu, heq⟩ := List.mem_map.mp ((hmem _).mp List.mem_cons_self)
  cases heq
  refine ⟨hu, fun v hv => ?_⟩
  rcases List.mem_cons.mp ((hmem _).mpr (List.mem_map_of_mem hv)) with heq | hrest
  · rw [(Prod.mk.inj heq).1]
  · exact hsorted.1 _ hrest

theorem byRank_ne_nil (h : values ≠ []) : byRank values ≠ [] := by
  intro hnil
  have hlength := congrArg List.length hnil
  rw [byRank, List.length_insertionSort, List.length_map, List.length_nil] at hlength
  exact h (List.length_eq_zero_iff.mp hlength)

theorem byRank_cons (h : ∀ v ∈ values, t.rank ≤ v.rank) :
    byRank (t :: values) = (t.rank, t) :: byRank values := by
  rw [byRank, List.map_cons, List.insertionSort_cons_of_forall_rel]
  · rfl
  · intro p hp
    obtain ⟨v, hv, rfl⟩ := List.mem_map.mp hp
    exact h v hv

/-! ## Independence of the order -/

/-- What the claimants of a type look at in a resolution. -/
structure Choice where
  signature : SqlTypeFamily × Chars × Option Nat × Option Nat × Option Nat
  selectedSource : Option String
  conflicts : List String
  blockers : List String

def TypeResolution.choice (r : TypeResolution) : Choice :=
  ⟨r.resolvedType.signature, r.selectedSource, r.conflicts, r.blockers⟩

/-- The choice made when a candidate is selected. -/
def chosen (values : List CanonicalSqlType) (selected : CanonicalSqlType) : Choice where
  signature := selected.signature
  selectedSource := some selected.resolutionStatus.value
  conflicts := if Disagree values then ["PARAMETER_COLUMN_TYPE_MISMATCH"] else []
  blockers := if Disagree values then ["TYPE_RESOLUTION_CONFLICT"] else []

theorem chosen_perm (hperm : values.Perm values') (selected : CanonicalSqlType) :
    chosen values selected = chosen values' selected := by
  have hiff : Disagree values ↔ Disagree values' :=
    ⟨fun h => h.perm hperm, fun h => h.perm hperm.symm⟩
  rw [chosen, chosen, if_congr hiff rfl rfl, if_congr hiff rfl rfl]

theorem resolveType_of_byRank (subjectRef : String) {rank : Nat}
    {rest : List (Nat × CanonicalSqlType)} (h : ∀ v ∈ values, v.Ranked)
    (horder : byRank values = (rank, t) :: rest) :
    ∃ r, resolveType subjectRef values = .ok r ∧ r.choice = chosen values t := by
  have hne : values ≠ [] := by
    rintro rfl
    cases horder
  rw [resolveType, if_neg hne, ranked_of_ranked h, horder]
  by_cases hdisagree : Disagree values
  · refine ⟨_, by
      dsimp only [bind, Except.bind]
      rw [if_pos (one_lt_signatures_iff.mpr hdisagree)]
      rfl, ?_⟩
    simp only [TypeResolution.choice, chosen, if_pos hdisagree]
    rfl
  · refine ⟨_, by
      dsimp only [bind, Except.bind]
      rw [if_neg (mt one_lt_signatures_iff.mp hdisagree)]
      rfl, ?_⟩
    simp only [TypeResolution.choice, chosen, if_neg hdisagree]

theorem resolveType_of_ranked (subjectRef : String) (hne : values ≠ [])
    (h : ∀ v ∈ values, v.Ranked) :
    ∃ r selected, resolveType subjectRef values = .ok r ∧ Foremost values selected ∧
      r.choice = chosen values selected := by
  cases horder : byRank values with
  | nil => exact absurd horder (byRank_ne_nil hne)
  | cons entry rest =>
    obtain ⟨rank, selected⟩ := entry
    obtain ⟨r, hr, hchoice⟩ := resolveType_of_byRank subjectRef h horder
    exact ⟨r, selected, hr, foremost_of_byRank horder, hchoice⟩

theorem resolveType_first (subjectRef : String) (h : ∀ v ∈ values, v.Ranked)
    (ht : Foremost values t) :
    ∃ r, resolveType subjectRef (t :: values.erase t) = .ok r ∧ r.choice = chosen values t := by
  have hperm : values.Perm (t :: values.erase t) := List.perm_cons_erase ht.1
  have hranked : ∀ v ∈ t :: values.erase t, v.Ranked := fun v hv => h v (hperm.mem_iff.mpr hv)
  have horder : byRank (t :: values.erase t) = (t.rank, t) :: byRank (values.erase t) :=
    byRank_cons fun v hv => ht.2 v (List.mem_of_mem_erase hv)
  obtain ⟨r, hr, hchoice⟩ := resolveType_of_byRank subjectRef hranked horder
  exact ⟨r, hr, hchoice.trans (chosen_perm hperm t).symm⟩

theorem resolveType_of_not_ranked (subjectRef : String) (ht : t ∈ values) (h : ¬ t.Ranked) :
    ∃ e, resolveType subjectRef values = .error e := by
  obtain ⟨e, he⟩ := ranked_of_not_ranked ht h
  rw [resolveType, if_neg (List.ne_nil_of_mem ht), he]
  exact ⟨e, rfl⟩

/-- A resolution that does not depend on the order: it is found, is the same for every order of the
candidates, reports a conflict exactly when two known types disagree, and is of a known type if
there is one. -/
structure ResolvesAlike (subjectRef : String) (values : List CanonicalSqlType) : Prop where
  returns : ∃ r, resolveType subjectRef values = .ok r
  permuted : ∀ values', values.Perm values' → ∃ r r', resolveType subjectRef values = .ok r ∧
    resolveType subjectRef values' = .ok r' ∧ r.choice = r'.choice
  conflict : ∀ r, resolveType subjectRef values = .ok r → (r.conflicts ≠ [] ↔
    ∃ v ∈ values, ∃ v' ∈ values, v.family ≠ .unknown ∧ v'.family ≠ .unknown ∧
      v.signature ≠ v'.signature)
  known : ∀ r, resolveType subjectRef values = .ok r → (∃ v ∈ values, v.family ≠ .unknown) →
    r.resolvedType.family ≠ .unknown

/-- The candidates all have a rank, and the foremost of them agree. -/
def ForemostAgree (values : List CanonicalSqlType) : Prop :=
  (∀ v ∈ values, v.Ranked) ∧
    ∀ v v', Foremost values v → Foremost values v' → v.signature = v'.signature

theorem CanonicalSqlType.Valid.known (h : t.Valid) (hranked : t.Ranked) : t.family ≠ .unknown := by
  intro hfamily
  rw [CanonicalSqlType.Ranked, h.unknown hfamily] at hranked
  exact absurd hranked (by decide)

theorem resolvesAlike_nil (subjectRef : String) : ResolvesAlike subjectRef [] where
  returns := ⟨_, rfl⟩
  permuted values' hperm := by
    obtain rfl := List.nil_perm.mp hperm
    exact ⟨_, _, rfl, rfl, rfl⟩
  conflict r hr := by
    cases hr
    simp
  known r _ hknown := by
    obtain ⟨v, hv, -⟩ := hknown
    cases hv

/-- If the foremost candidates agree, the order does not matter. -/
theorem resolvesAlike_of_foremostAgree {subjectRef : String} (hvalid : ∀ v ∈ values, v.Valid)
    (h : ForemostAgree values) : ResolvesAlike subjectRef values := by
  by_cases hne : values = []
  · rw [hne]
    exact resolvesAlike_nil subjectRef
  obtain ⟨r, selected, hr, hselected, hchoice⟩ := resolveType_of_ranked subjectRef hne h.1
  have hknown : ∀ v ∈ values, v.family ≠ .unknown := fun v hv => (hvalid v hv).known (h.1 v hv)
  refine ⟨⟨r, hr⟩, fun values' hperm => ?_, fun r' hr' => ?_, fun r' hr' _ => ?_⟩
  · have hne' : values' ≠ [] := fun hnil => hne (List.perm_nil.mp (hnil ▸ hperm))
    obtain ⟨r', selected', hr', hselected', hchoice'⟩ :=
      resolveType_of_ranked subjectRef hne' fun v hv => h.1 v (hperm.mem_iff.mpr hv)
    have hforemost : Foremost values selected' := hselected'.perm hperm.symm
    have hrank : selected.rank = selected'.rank :=
      le_antisymm (hselected.2 _ hforemost.1) (hforemost.2 _ hselected.1)
    have hstatus := status_of_rank (h.1 _ hselected.1) hrank
    refine ⟨r, r', hr, hr', ?_⟩
    rw [hchoice, hchoice', ← chosen_perm hperm, chosen, chosen,
      h.2 _ _ hselected hforemost, hstatus]
  · obtain rfl : r = r' := Except.ok.inj (hr.symm.trans hr')
    have hconflicts : r.conflicts = (chosen values selected).conflicts :=
    congrArg Choice.conflicts hchoice
    rw [hconflicts, chosen]
    constructor
    · intro hconflict
      have hdisagree : Disagree values := by
        by_contra hagree
        exact hconflict (if_neg hagree)
      obtain ⟨v, hv, v', hv', hdiffer⟩ := hdisagree
      exact ⟨v, hv, v', hv', hknown v hv, hknown v' hv', hdiffer⟩
    · rintro ⟨v, hv, v', hv', -, -, hdiffer⟩
      have hdisagree : Disagree values := ⟨v, hv, v', hv', hdiffer⟩
      dsimp only
      rw [if_pos hdisagree]
      exact List.cons_ne_nil _ _
  · obtain rfl : r = r' := Except.ok.inj (hr.symm.trans hr')
    have hfamily : r.resolvedType.family = selected.family :=
      congrArg (fun c : Choice => c.signature.1) hchoice
    rw [hfamily]
    exact hknown selected hselected.1

theorem foremostAgree_of_resolvesAlike {subjectRef : String} (h : ResolvesAlike subjectRef values) :
    ForemostAgree values := by
  have hranked : ∀ v ∈ values, v.Ranked := by
    intro v hv
    by_contra hnot
    obtain ⟨r, hr⟩ := h.returns
    obtain ⟨e, he⟩ := resolveType_of_not_ranked subjectRef hv hnot
    rw [he] at hr
    cases hr
  -- each foremost candidate is the choice of the order that begins with it
  have hchoice : ∀ v, Foremost values v → ∀ r, resolveType subjectRef values = .ok r →
      r.choice.signature = v.signature := by
    intro v hv r hr
    obtain ⟨r', hr', hfirst⟩ := resolveType_first subjectRef hranked hv
    obtain ⟨s, s', hs, hs', hsame⟩ := h.permuted _ (List.perm_cons_erase hv.1)
    obtain rfl : r = s := Except.ok.inj (hr.symm.trans hs)
    obtain rfl : r' = s' := Except.ok.inj (hr'.symm.trans hs')
    rw [hsame, hfirst]
    rfl
  refine ⟨hranked, fun v v' hv hv' => ?_⟩
  obtain ⟨r, hr⟩ := h.returns
  exact (hchoice v hv r hr).symm.trans (hchoice v' hv' r hr)

/-- **Reconciliation is independent of the order** exactly when every candidate has a rank and the
candidates of the best rank agree. -/
theorem resolves_alike_iff (subjectRef : String) (candidates : List SqlType) :
    ResolvesAlike subjectRef (candidates.map Subtype.val) ↔
      ForemostAgree (candidates.map Subtype.val) := by
  refine ⟨foremostAgree_of_resolvesAlike, fun h =>
    resolvesAlike_of_foremostAgree (fun v hv => ?_) h⟩
  obtain ⟨t, -, rfl⟩ := List.mem_map.mp hv
  exact t.property

/-! ### A type the catalog does not know, and two that it knows -/

def declaredInteger : SqlType :=
  ⟨{ family := .integer, databaseType := "INTEGER".toList, resolutionStatus := .declared,
     completeness := .complete, sourceRefs := ["P"] }, by decide⟩

def catalogRowid : SqlType :=
  ⟨{ family := .unknown, databaseType := "ROWID".toList, resolutionStatus := .unknown,
     completeness := .unknown, sourceRefs := ["C"] }, by decide⟩

def catalogType (family : SqlTypeFamily) (name : String) (h : family ≠ .unknown) : SqlType :=
  ⟨{ family, databaseType := name.toList, resolutionStatus := .catalogResolved,
     completeness := .complete, sourceRefs := ["C"] },
    nofun, nofun, nofun, fun hfamily => absurd hfamily h⟩

def catalogInteger : SqlType := catalogType .integer "INTEGER" (by decide)

def catalogBigint : SqlType := catalogType .bigInteger "BIGINT" (by decide)

theorem types_as_read :
    parseDeclaredSqlType "integer" "P" = .ok declaredInteger ∧
    canonicalType "ROWID".toList none none none none "C" = .ok catalogRowid ∧
    canonicalType "INTEGER".toList none none none none "C" = .ok catalogInteger ∧
    canonicalType "BIGINT".toList none none none none "C" = .ok catalogBigint := by
  refine ⟨?_, ?_, ?_, ?_⟩ <;> decide +kernel

/-- A declared `INTEGER` and a column of a type without a family raise; an `INTEGER` and a `BIGINT`
column resolve to the one that is given first. -/
theorem resolution_depends_on_order :
    (parseDeclaredSqlType "integer" "P" = .ok declaredInteger ∧
      canonicalType "ROWID".toList none none none none "C" = .ok catalogRowid ∧
      (∃ e, resolveType "T.C" [declaredInteger.val, catalogRowid.val] = .error e) ∧
      ¬ ResolvesAlike "T.C" [declaredInteger.val, catalogRowid.val]) ∧
    (canonicalType "INTEGER".toList none none none none "C" = .ok catalogInteger ∧
      canonicalType "BIGINT".toList none none none none "C" = .ok catalogBigint ∧
      ¬ ResolvesAlike "T.C" [catalogInteger.val, catalogBigint.val]) := by
  obtain ⟨hdeclared, hrowid, hinteger, hbigint⟩ := types_as_read
  have hnot : ¬ catalogRowid.val.Ranked := by decide
  refine ⟨⟨hdeclared, hrowid, resolveType_of_not_ranked _ (by simp) hnot, fun h => ?_⟩,
    hinteger, hbigint, fun h => ?_⟩
  · exact hnot ((foremostAgree_of_resolvesAlike h).1 _ (by simp))
  · have hagree := (foremostAgree_of_resolvesAlike h).2 catalogInteger.val catalogBigint.val
      ⟨by simp, by decide⟩ ⟨by simp, by decide⟩
    exact absurd (congrArg Prod.fst hagree) (by decide)

end AtlasDb.Catalog
