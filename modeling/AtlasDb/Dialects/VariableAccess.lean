import AtlasDb.Dialects.IntoLists

/-!
# Reads and writes of a statement

`adapter.py: parse_text`, the variables a node reads and writes. What the statement itself assigns
and uses is said of the fragments it is put together from. The two sets are complete iff each of
these variables is where the patterns look for it, and no word they look at is written only in a
literal or a comment (`accesses_complete_iff`).
-/

namespace AtlasDb.Dialects

open Core Core.Patterns Lib

/-! ## The sets -/

/-- `tuple(dict.fromkeys(values))` -/
def firstOccurrences (values : List (List Char)) : List (List Char) :=
  values.foldl (fun seen value => if value ∈ seen then seen else seen ++ [value]) []

/-- What `variable_reads` and `variable_writes` of a node are set to. -/
structure Accesses where
  reads : List (List Char)
  writes : List (List Char)

/-- The loop of `parse_text` at one statement. -/
def accesses (letters : Letters) (n : DialectNormalizer) (casing : Casing) (kind : SemanticNodeKind)
    (text : List Char) : Accesses :=
  let assigned := assignment letters n.dialect text
  let reads := match assigned with
    | some (_, expression) => variablesOf n casing expression
    | none => variablesOf n casing text
  let target := match assigned with
    | some (target, _) => [n.normalizeVariable casing target]
    | none => []
  let into := if kind = .selectInto then
      (words (intoGroup letters text)).map (n.normalizeVariable casing)
    else []
  { reads := reads, writes := firstOccurrences (target ++ into) }

/-! ## What a statement assigns and uses -/

/-- What a fragment of a statement is: a variable that is assigned, one that is assigned and whose
value is used (the target of `+=`), one whose value is used, a literal or a comment, or anything
else. -/
inductive FragmentRole where
  | assigned
  | updated
  | used
  | hidden
  | other
deriving DecidableEq

structure Fragment where
  role : FragmentRole
  text : List Char

def Fragment.isAssigned (f : Fragment) : Bool := f.role = .assigned || f.role = .updated

def Fragment.isUsed (f : Fragment) : Bool := f.role = .used || f.role = .updated

/-- A classified statement with what its fragments are. -/
structure AnnotatedStatement where
  kind : SemanticNodeKind
  fragments : List Fragment

namespace AnnotatedStatement

def text (s : AnnotatedStatement) : List Char := s.fragments.flatMap Fragment.text

/-- The characters of the text, each with whether it belongs to a literal or a comment. -/
def marked (s : AnnotatedStatement) : List (Char × Bool) :=
  s.fragments.flatMap fun f => f.text.map (·, decide (f.role = .hidden))

end AnnotatedStatement

section Statement

variable (n : DialectNormalizer) (casing : Casing) (s : AnnotatedStatement)

/-- A word stands in literals and comments, and wherever it stands it does. -/
def OnlyHidden (v : List Char) : Prop :=
  (∃ word ∈ wordsOf Prod.fst s.marked, n.normalizeVariable casing (word.map Prod.fst) = v) ∧
    ∀ word ∈ wordsOf Prod.fst s.marked, n.normalizeVariable casing (word.map Prod.fst) = v →
      ∀ c ∈ word, c.2 = true

/-- **The sets are complete**: every variable that is assigned is written, every variable whose
value is used is read, and no word is in them that stands only in literals and comments. -/
structure AccessesComplete (a : Accesses) : Prop where
  writes : ∀ f ∈ s.fragments, f.isAssigned = true → n.normalizeVariable casing f.text ∈ a.writes
  reads : ∀ f ∈ s.fragments, f.isUsed = true → n.normalizeVariable casing f.text ∈ a.reads
  visible : ∀ v ∈ a.reads ++ a.writes, ¬ OnlyHidden n casing s v

variable (letters : Letters)

/-- The part of the text that is read for variables: what follows the operator of an assignment, or
else the whole text. -/
def Scanned (part : List Char) : Prop :=
  (∃ name, Assigns letters n.dialect s.text name part) ∨
    (¬ ∃ name rest, Assigns letters n.dialect s.text name rest) ∧ part = s.text

/-- The variable is a word of the text that is no keyword. -/
def NamedIn (part v : List Char) : Prop :=
  ∃ word ∈ words part, isSqlKeyword word = false ∧ n.normalizeVariable casing word = v

/-- The variable is a word of the list behind `INTO`. -/
def ListedInto (v : List Char) : Prop :=
  s.kind = .selectInto ∧
    ∃ word ∈ words (intoList letters none s.text), n.normalizeVariable casing word = v

/-- The variable is the target of the assignment the text begins with. -/
def IsTarget (v : List Char) : Prop :=
  ∃ name rest, Assigns letters n.dialect s.text name rest ∧ n.normalizeVariable casing name = v

/-- The statement names each variable where it is looked for, and in plain sight. -/
structure AccessesCovered : Prop where
  assigned : ∀ f ∈ s.fragments, f.isAssigned = true →
    IsTarget n casing s letters (n.normalizeVariable casing f.text) ∨
      ListedInto n casing s letters (n.normalizeVariable casing f.text)
  used : ∀ f ∈ s.fragments, f.isUsed = true → ∃ part, Scanned n s letters part ∧
    NamedIn n casing part (n.normalizeVariable casing f.text)
  plain : ∀ part v, Scanned n s letters part → NamedIn n casing part v → ¬ OnlyHidden n casing s v
  target : ∀ v, IsTarget n casing s letters v → ¬ OnlyHidden n casing s v
  listed : ∀ v, ListedInto n casing s letters v → ¬ OnlyHidden n casing s v

end Statement

/-! ## What the sets hold -/

section Members

variable {isWord : Char → Bool} {n : DialectNormalizer} {casing : Casing} {s : AnnotatedStatement}
  {v : List Char}

theorem mem_firstOccurrences {values : List (List Char)} : v ∈ firstOccurrences values ↔
    v ∈ values := by
  rw [firstOccurrences, mem_foldl_unlessMem (fun value => value)]
  simp

theorem Scanned.unique {letters : Letters} {part part' : List Char}
    (hunique : ∀ name rest name' rest', Assigns letters n.dialect s.text name rest →
      Assigns letters n.dialect s.text name' rest' → rest = rest')
    (h : Scanned n s letters part) (h' : Scanned n s letters part') : part = part' := by
  rcases h with ⟨name, h⟩ | ⟨hnone, rfl⟩
  · rcases h' with ⟨name', h'⟩ | ⟨hnone', -⟩
    · exact hunique _ _ _ _ h h'
    · exact absurd ⟨name, part, h⟩ hnone'
  · rcases h' with ⟨name', h'⟩ | ⟨-, rfl⟩
    · exact absurd ⟨name', part', h'⟩ hnone
    · rfl

theorem mem_reads : v ∈ (accesses (ignoreCase isWord) n casing s.kind s.text).reads ↔
    ∃ part, Scanned n s (ignoreCase isWord) part ∧ NamedIn n casing part v := by
  have hunique {part part' : List Char} := @Scanned.unique n s (ignoreCase isWord) part part'
    fun _ _ _ _ h h' => (h.unique h').2
  unfold accesses
  dsimp only
  cases h : assignment (ignoreCase isWord) n.dialect s.text with
  | some assigned =>
    obtain ⟨target, expression⟩ := assigned
    obtain ⟨rest, hassigns, hwords⟩ := assignment_eq_some h
    have hscanned : Scanned n s (ignoreCase isWord) rest := .inl ⟨target, hassigns⟩
    dsimp only
    rw [mem_variablesOf, hwords]
    exact ⟨fun hv => ⟨rest, hscanned, hv⟩, fun ⟨part, hpart, hv⟩ => hunique hpart hscanned ▸ hv⟩
  | none =>
    have hscanned : Scanned n s (ignoreCase isWord) s.text := .inr ⟨assignment_eq_none h, rfl⟩
    dsimp only
    rw [mem_variablesOf]
    exact ⟨fun hv => ⟨s.text, hscanned, hv⟩, fun ⟨part, hpart, hv⟩ => hunique hpart hscanned ▸ hv⟩

theorem mem_writes : v ∈ (accesses (ignoreCase isWord) n casing s.kind s.text).writes ↔
    IsTarget n casing s (ignoreCase isWord) v ∨ ListedInto n casing s (ignoreCase isWord) v := by
  unfold accesses
  dsimp only
  rw [mem_firstOccurrences, List.mem_append]
  apply or_congr
  · cases h : assignment (ignoreCase isWord) n.dialect s.text with
    | some assigned =>
      obtain ⟨target, expression⟩ := assigned
      obtain ⟨rest, hassigns, -⟩ := assignment_eq_some h
      dsimp only
      rw [List.mem_singleton]
      constructor
      · rintro rfl
        exact ⟨target, rest, hassigns, rfl⟩
      · rintro ⟨name, rest', hassigns', rfl⟩
        rw [(hassigns'.unique hassigns).1]
    | none =>
      constructor
      · exact fun hv => absurd hv List.not_mem_nil
      · rintro ⟨name, rest, hassigns, -⟩
        exact absurd ⟨name, rest, hassigns⟩ (assignment_eq_none h)
  · unfold ListedInto
    split
    · next hkind =>
        rw [List.mem_map, words_intoGroup]
        exact ⟨fun hv => ⟨hkind, hv⟩, fun hv => hv.2⟩
    · next hkind => exact ⟨fun hv => absurd hv List.not_mem_nil, fun hv => absurd hv.1 hkind⟩

end Members

/-- **Reads and writes.** The sets of a statement are complete iff every variable it assigns is the
target at its beginning or in the list behind `INTO`, every variable whose value it uses is a plain
word of the part that is read, and what is found there does not stand in literals and comments
only. -/
theorem accesses_complete_iff (isWord : Char → Bool) (dialect : DialectId) (casing : Casing)
    (s : AnnotatedStatement) :
    AccessesComplete (normalizerOf dialect) casing s
        (accesses (ignoreCase isWord) (normalizerOf dialect) casing s.kind s.text) ↔
      AccessesCovered (normalizerOf dialect) casing s (ignoreCase isWord) := by
  constructor
  · intro h
    exact {
      assigned := fun f hf hassigned => mem_writes.mp (h.writes f hf hassigned)
      used := fun f hf hused => mem_reads.mp (h.reads f hf hused)
      plain := fun part v hpart hv =>
        h.visible v (List.mem_append_left _ (mem_reads.mpr ⟨part, hpart, hv⟩))
      target := fun v hv => h.visible v (List.mem_append_right _ (mem_writes.mpr (.inl hv)))
      listed := fun v hv => h.visible v (List.mem_append_right _ (mem_writes.mpr (.inr hv))) }
  · intro h
    refine ⟨fun f hf hassigned => mem_writes.mpr (h.assigned f hf hassigned),
      fun f hf hused => mem_reads.mpr (h.used f hf hused), fun v hv => ?_⟩
    rcases List.mem_append.mp hv with hv | hv
    · obtain ⟨part, hpart, hv⟩ := mem_reads.mp hv
      exact h.plain part v hpart hv
    · rcases mem_writes.mp hv with hv | hv
      · exact h.target v hv
      · exact h.listed v hv

/-- `SET @total += 1` uses the value of the variable it assigns. -/
def addToTotal : AnnotatedStatement where
  kind := .assignment
  fragments := [⟨.other, "SET ".toList⟩, ⟨.updated, "@total".toList⟩, ⟨.other, " += 1".toList⟩]

theorem compound_target_not_read : ¬ ∀ (isWord : Char → Bool) (dialect : DialectId)
    (casing : Casing) (s : AnnotatedStatement), AccessesComplete (normalizerOf dialect) casing s
      (accesses (ignoreCase isWord) (normalizerOf dialect) casing s.kind s.text) := by
  intro h
  have hreads := (h Regex.isWordChar .sqlserverTsql .ascii addToTotal).reads
    ⟨.updated, "@total".toList⟩ (List.mem_cons_of_mem _ List.mem_cons_self) rfl
  revert hreads
  decide +kernel

end AtlasDb.Dialects
