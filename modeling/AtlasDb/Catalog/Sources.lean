import AtlasDb.Catalog.Queries
import Mathlib.Algebra.Order.BigOperators.Group.List

/-!
# What the lineage of a view misses

`sourceRefs` looks at one token behind FROM and JOIN. It finds what a query reads just when nothing
is lost by that (`sourceRefs_exact_iff`): by the later items of a comma list, by names that are
spelled with several tokens or taken for a common table expression, by common table expressions that
are not recognised as such, and by FROM inside an expression. Where all views of a snapshot are read
exactly, every base table below a root is reported or lies behind a boundary (`base_or_boundary`).
-/

namespace AtlasDb.Catalog

open Core Lib

/-! ## One view -/

section Exact

variable (schema : Chars) (q : Query)

/-- What is made of a token behind a keyword. -/
def accepts (token : Chars) : Option Chars :=
  acceptHead (cteNames none (queryTokens q)) schema token

/-- Some token behind a keyword is taken for the relation. -/
def Spotted (ref : Chars) : Prop :=
  ∃ m ∈ queryMentions [] q, ∃ token, m.head = some token ∧ accepts schema q token = some ref

/-- What should be made of a name behind a keyword. -/
def Occurrence.expected (occ : Occurrence) : Option Chars := (Mention.relation occ).read? schema

/-- Whatever is overlooked or misread is found elsewhere, and nothing is made up. -/
structure Recognised : Prop where
  /-- A name that neither FROM nor JOIN stands before. -/
  later : ∀ occ, .relation occ ∈ queryMentions [] q → occ.leading = false →
    ∀ ref, occ.expected schema = some ref → Spotted schema q ref
  /-- A name behind FROM or JOIN whose first token is taken for something else. -/
  misread : ∀ occ, .relation occ ∈ queryMentions [] q → occ.leading = true →
    accepts schema q occ.name.head ≠ occ.expected schema →
      (∀ ref, occ.expected schema = some ref → Spotted schema q ref) ∧
        ∀ ref, accepts schema q occ.name.head = some ref → ref ∈ reads schema q
  /-- FROM in an expression. -/
  operand : ∀ word, .operand word ∈ queryMentions [] q →
    ∀ ref, accepts schema q word.val = some ref → ref ∈ reads schema q

variable {schema q}

theorem mem_sourceRefs {text : Chars} (h : Written (queryTokens q) text) {ref : Chars} :
    ref ∈ sourceRefs text schema ↔ Spotted schema q ref := by
  have hheads : heads (queryTokens q) = headsOf (queryMentions [] q) := by
    have hquery := query_heads q [] []
    rw [List.append_nil] at hquery
    rw [hquery]
    exact List.append_nil _
  unfold sourceRefs
  simp only [tokenize_written h, hheads, List.mem_eraseDups, List.mem_filterMap, headsOf]
  constructor
  · rintro ⟨token, ⟨m, hm, hhead⟩, haccept⟩
    exact ⟨m, hm, token, hhead, haccept⟩
  · rintro ⟨m, hm, token, hhead, haccept⟩
    exact ⟨token, ⟨m, hm, hhead⟩, haccept⟩

theorem mem_reads {ref : Chars} :
    ref ∈ reads schema q ↔
      ∃ occ, .relation occ ∈ queryMentions [] q ∧ occ.expected schema = some ref := by
  unfold reads
  rw [List.mem_filterMap]
  constructor
  · rintro ⟨m, hm, hread⟩
    cases m with
    | relation occ => exact ⟨occ, hm, hread⟩
    | operand word => cases hread
  · rintro ⟨occ, hocc, hread⟩
    exact ⟨.relation occ, hocc, hread⟩

theorem head_of_leading {occ : Occurrence} (h : occ.leading = true) :
    (Mention.relation occ).head = some occ.name.head := if_pos h

/-- The references found are those read, just when the query is recognised. -/
theorem sourceRefs_exact_iff {text : Chars} (h : Written (queryTokens q) text) :
    (∀ ref, ref ∈ sourceRefs text schema ↔ ref ∈ reads schema q) ↔ Recognised schema q := by
  simp only [mem_sourceRefs h]
  constructor
  · intro hexact
    refine ⟨fun occ hocc _ ref href => ?_, fun occ hocc hleading _ => ⟨fun ref href => ?_,
      fun ref href => ?_⟩, fun word hword ref href => ?_⟩
    · exact (hexact ref).2 (mem_reads.2 ⟨occ, hocc, href⟩)
    · exact (hexact ref).2 (mem_reads.2 ⟨occ, hocc, href⟩)
    · exact (hexact ref).1 ⟨_, hocc, _, head_of_leading hleading, href⟩
    · exact (hexact ref).1 ⟨_, hword, _, rfl, href⟩
  · intro hrecognised ref
    constructor
    · rintro ⟨m, hm, token, hhead, haccept⟩
      cases m with
      | operand word =>
        cases hhead
        exact hrecognised.operand word hm ref haccept
      | relation occ =>
        have hleading : occ.leading = true := by
          by_contra hnot
          rw [Mention.head, if_neg hnot] at hhead
          cases hhead
        rw [head_of_leading hleading] at hhead
        cases hhead
        by_cases hread : accepts schema q occ.name.head = occ.expected schema
        · exact mem_reads.2 ⟨occ, hm, hread ▸ haccept⟩
        · exact (hrecognised.misread occ hm hleading hread).2 ref haccept
    · intro href
      obtain ⟨occ, hocc, hexpected⟩ := mem_reads.1 href
      cases hleading : occ.leading with
      | false => exact hrecognised.later occ hocc hleading ref hexpected
      | true =>
        by_cases hread : accepts schema q occ.name.head = occ.expected schema
        · exact ⟨_, hocc, _, head_of_leading hleading, hread.trans hexpected⟩
        · exact (hrecognised.misread occ hocc hleading hread).1 ref hexpected

end Exact

/-! ## The resolver -/

section Resolver

variable (snapshot : CatalogSnapshot) (maxDepth : Nat)

/-- The relation a boundary is reported for. -/
def Boundary.ref : Boundary → Chars
  | sourceUnavailable ref => ref
  | viewRecursionDetected ref => ref
  | viewExpansionDepthLimit ref => ref
  | viewDefinitionUnavailable ref => ref
  | remoteMetadataUnavailable ref => ref
  | tableFunctionBodyUnavailable ref => ref

def RelationKind.isBase : RelationKind → Bool
  | .table | .nickname | .temporaryTable => true
  | _ => false

/-- The turn for the item ended at a boundary. -/
def Stopped (item : Pending) (s : LineageState) : Prop := ∃ b ∈ s.unresolved, b.ref = item.ref

/-- What the turn for an item leaves behind: it stopped, or it went on to the targets and took down
a base relation. -/
def Recorded (item : Pending) (s : LineageState) : Prop :=
  Stopped item s ∨ ∃ relation, snapshot.relation item.ref = some relation ∧
    item.ref ∉ item.lineage ∧ item.depth < maxDepth ∧
      (relation.relationKind.isBase = true → item.ref ∈ s.base)

variable {snapshot maxDepth}

theorem record_grows (s : LineageState) (item : Pending) :
    s.base ⊆ (record snapshot maxDepth s item).base ∧
      s.unresolved ⊆ (record snapshot maxDepth s item).unresolved := by
  unfold record
  simp only
  split
  · exact ⟨Finset.Subset.refl _, Finset.subset_insert _ _⟩
  · split
    · exact ⟨Finset.Subset.refl _, Finset.subset_insert _ _⟩
    · split
      · exact ⟨Finset.Subset.refl _, Finset.subset_insert _ _⟩
      · split
        · split
          · exact ⟨Finset.Subset.refl _, Finset.subset_insert _ _⟩
          · exact ⟨Finset.Subset.refl _, Finset.Subset.refl _⟩
        · split
          · exact ⟨Finset.Subset.refl _, Finset.subset_insert _ _⟩
          · exact ⟨Finset.Subset.refl _, Finset.Subset.refl _⟩
        · exact ⟨Finset.subset_insert _ _, Finset.Subset.refl _⟩
        · exact ⟨Finset.subset_insert _ _, Finset.Subset.refl _⟩
        · refine ⟨Finset.subset_insert _ _, ?_⟩
          split
          · exact Finset.subset_insert _ _
          · exact Finset.Subset.refl _
        · exact ⟨Finset.Subset.refl _, Finset.subset_insert _ _⟩
        · exact ⟨Finset.Subset.refl _, Finset.Subset.refl _⟩
        · exact ⟨Finset.Subset.refl _, Finset.Subset.refl _⟩

theorem recorded_record (s : LineageState) (item : Pending) :
    Recorded snapshot maxDepth item (record snapshot maxDepth s item) := by
  have hinsert : ∀ b : Boundary, b.ref = item.ref → ∀ t : LineageState, b ∈ t.unresolved →
      Recorded snapshot maxDepth item t := fun b hb t ht => .inl ⟨b, ht, hb⟩
  unfold record
  simp only
  split
  · exact hinsert _ rfl _ (Finset.mem_insert_self _ _)
  · next relation hrelation =>
      split
      · exact hinsert _ rfl _ (Finset.mem_insert_self _ _)
      · next hlineage =>
          split
          · exact hinsert _ rfl _ (Finset.mem_insert_self _ _)
          · next hdepth =>
              have hgoes : ∀ t : LineageState,
                  (relation.relationKind.isBase = true → item.ref ∈ t.base) →
                  Recorded snapshot maxDepth item t := fun t ht =>
                .inr ⟨relation, hrelation, hlineage, Nat.lt_of_not_le hdepth, ht⟩
              have hother : ∀ t : LineageState, relation.relationKind.isBase = false →
                  Recorded snapshot maxDepth item t := fun t hnot =>
                hgoes t fun hbase => absurd hbase (by rw [hnot]; decide)
              cases hkind : relation.relationKind with
              | view =>
                simp only
                split
                · exact hinsert _ rfl _ (Finset.mem_insert_self _ _)
                · exact hother s (by rw [hkind]; rfl)
              | materializedQueryTable =>
                simp only
                split
                · exact hinsert _ rfl _ (Finset.mem_insert_self _ _)
                · exact hother s (by rw [hkind]; rfl)
              | table => exact hgoes _ fun _ => Finset.mem_insert_self _ _
              | temporaryTable => exact hgoes _ fun _ => Finset.mem_insert_self _ _
              | nickname => exact hgoes _ fun _ => Finset.mem_insert_self _ _
              | tableFunction => exact hinsert _ rfl _ (Finset.mem_insert_self _ _)
              | synonym => exact hother s (by rw [hkind]; rfl)
              | unknown => exact hother s (by rw [hkind]; rfl)

theorem Recorded.mono {item other : Pending} {s : LineageState}
    (h : Recorded snapshot maxDepth item s) :
    Recorded snapshot maxDepth item (record snapshot maxDepth s other) := by
  obtain ⟨hbase, hunresolved⟩ := @record_grows snapshot maxDepth s other
  rcases h with ⟨b, hb, href⟩ | ⟨relation, hrelation, hlineage, hdepth, hmem⟩
  · exact .inl ⟨b, hunresolved hb, href⟩
  · exact .inr ⟨relation, hrelation, hlineage, hdepth, fun h => hbase (hmem h)⟩

theorem targets_le_branching {ref : Chars} {relation : CatalogRelation}
    (h : snapshot.relation ref = some relation) :
    (targetsOf relation).length ≤ branching snapshot := by
  have hmem : relation ∈ snapshot.relations := List.mem_of_find?_eq_some h
  unfold branching
  generalize snapshot.relations = relations at hmem
  induction relations with
  | nil => cases hmem
  | cons r rs ih =>
    rw [List.map_cons, List.foldr_cons]
    rcases List.mem_cons.1 hmem with rfl | hmem
    · exact Nat.le_max_left _ _
    · exact Nat.le_trans (ih hmem) (Nat.le_max_right _ _)

/-- A turn makes the queue lighter. -/
theorem nextPending_weight (item : Pending) :
    ((nextPending snapshot maxDepth item).map fun p =>
      pendingWeight snapshot maxDepth p.depth).sum <
      pendingWeight snapshot maxDepth item.depth := by
  have hpos : 0 < pendingWeight snapshot maxDepth item.depth := Nat.pow_pos (by omega)
  unfold nextPending
  split
  · exact hpos
  · next relation hrelation =>
      split
      · exact hpos
      · next hgoes =>
          obtain ⟨-, hdepth⟩ := not_or.1 hgoes
          have hweights : ((targetsOf relation).map fun target =>
              (⟨target, item.depth + 1, item.lineage ++ [item.ref]⟩ : Pending)).map
                (fun p => pendingWeight snapshot maxDepth p.depth) =
              List.replicate (targetsOf relation).length
                (pendingWeight snapshot maxDepth (item.depth + 1)) := by
            rw [List.map_map]
            show (targetsOf relation).map
              (fun _ => pendingWeight snapshot maxDepth (item.depth + 1)) = _
            exact List.map_const'
          have hexponent : maxDepth + 1 - item.depth = maxDepth + 1 - (item.depth + 1) + 1 := by
            omega
          have hstep : pendingWeight snapshot maxDepth item.depth =
              pendingWeight snapshot maxDepth (item.depth + 1) * (branching snapshot + 2) := by
            unfold pendingWeight
            rw [hexponent, Nat.pow_succ]
          have hchild : 0 < pendingWeight snapshot maxDepth (item.depth + 1) :=
            Nat.pow_pos (by omega)
          rw [hweights, List.sum_replicate_nat, hstep, Nat.mul_comm]
          apply Nat.mul_lt_mul_of_pos_left _ hchild
          have := targets_le_branching hrelation
          omega

theorem resolve_recorded {roots : List Chars} {root : Chars} (hroot : root ∈ rootRefs roots)
    {item : Pending}
    (hpath : Relation.ReflTransGen (fun a b => b ∈ nextPending snapshot maxDepth a)
      ⟨root, 0, []⟩ item) :
    Recorded snapshot maxDepth item (resolve snapshot maxDepth roots) := by
  refine drain_visits nextPending_weight (P := Recorded snapshot maxDepth) recorded_record
    (fun _ _ _ h => h.mono) ?_ (List.mem_map.2 ⟨root, hroot, rfl⟩) hpath
  rw [List.map_map]
  have hconst := List.map_const' (l := rootRefs roots) (b := pendingWeight snapshot maxDepth 0)
  show ((rootRefs roots).map fun _ => pendingWeight snapshot maxDepth 0).sum ≤ _
  rw [hconst, List.sum_replicate_nat, List.length_map]

/-! ## Dependencies -/

variable (snapshot) in
/-- What a relation depends on: the relations its query reads, or the target of a synonym. `meaning`
is the query a text stands for. -/
inductive DependsOn (meaning : Chars → Option Query) : Chars → Chars → Prop where
  | query {ref text target : Chars} {relation : CatalogRelation} {q : Query}
      (hrelation : snapshot.relation ref = some relation)
      (hkind : relation.relationKind = .view ∨ relation.relationKind = .materializedQueryTable)
      (htext : relation.viewDefinitionText = some text) (hmeaning : meaning text = some q)
      (htarget : target ∈ reads relation.schemaName q) : DependsOn meaning ref target
  | synonym {ref target : Chars} {relation : CatalogRelation}
      (hrelation : snapshot.relation ref = some relation)
      (hkind : relation.relationKind = .synonym)
      (htarget : relation.synonymTargetRef = some target) (hne : target ≠ []) :
      DependsOn meaning ref (Text.upper target)

variable (snapshot) in
/-- The queries of the snapshot are written as its texts and recognised. -/
def AllRecognised (meaning : Chars → Option Query) : Prop :=
  ∀ relation ∈ snapshot.relations, ∀ text q, relation.viewDefinitionText = some text →
    meaning text = some q → Written (queryTokens q) text ∧ Recognised relation.schemaName q

variable (snapshot maxDepth) in
/-- The relation lies behind a boundary that was reported for a relation on the way from the
root. -/
def BehindBoundary (meaning : Chars → Option Query) (roots : List Chars) (root ref : Chars) :
    Prop :=
  ∃ via, Relation.ReflTransGen (DependsOn snapshot meaning) root via ∧
    Relation.ReflTransGen (DependsOn snapshot meaning) via ref ∧
      ∃ b ∈ (resolve snapshot maxDepth roots).unresolved, b.ref = via

variable {meaning : Chars → Option Query}

theorem DependsOn.mem_targets (hrecognised : AllRecognised snapshot meaning) {ref target : Chars}
    (h : DependsOn snapshot meaning ref target) {relation : CatalogRelation}
    (hrelation : snapshot.relation ref = some relation) : target ∈ targetsOf relation := by
  cases h with
  | @query text _ relation' q hrelation' hkind htext hmeaning htarget =>
    obtain rfl : relation' = relation := Option.some.inj (hrelation'.symm.trans hrelation)
    obtain ⟨hwritten, hq⟩ :=
      hrecognised _ (List.mem_of_find?_eq_some hrelation) text q htext hmeaning
    have hmem : target ∈ sourceRefs text relation'.schemaName :=
      ((sourceRefs_exact_iff hwritten).2 hq target).2 htarget
    have hne : text ≠ [] := by
      rintro rfl
      cases hmem
    rcases hkind with hkind | hkind
    all_goals
      rw [targetsOf, hkind, htext]
      simp only [if_neg hne]
      exact hmem
  | @synonym target' relation' hrelation' hkind htarget hne =>
    obtain rfl : relation' = relation := Option.some.inj (hrelation'.symm.trans hrelation)
    rw [targetsOf, hkind, htarget]
    simp only [if_neg hne]
    exact List.mem_singleton.2 rfl

theorem reached_or_behind (hrecognised : AllRecognised snapshot meaning) {roots : List Chars}
    {root ref : Chars} (hroot : root ∈ rootRefs roots)
    (hpath : Relation.ReflTransGen (DependsOn snapshot meaning) root ref) :
    BehindBoundary snapshot maxDepth meaning roots root ref ∨
      ∃ item, item.ref = ref ∧
        Relation.ReflTransGen (fun a b => b ∈ nextPending snapshot maxDepth a)
        ⟨root, 0, []⟩ item := by
  induction hpath with
  | refl => exact .inr ⟨⟨root, 0, []⟩, rfl, .refl⟩
  | @tail via ref hpath hstep ih =>
    rcases ih with ⟨y, hy, hvia, hboundary⟩ | ⟨item, rfl, hitem⟩
    · exact .inl ⟨y, hy, hvia.tail hstep, hboundary⟩
    · rcases resolve_recorded hroot hitem with hstopped | ⟨relation, hrelation, hlineage, hdepth, -⟩
      · exact .inl ⟨item.ref, hpath, .single hstep, hstopped⟩
      · refine .inr ⟨⟨ref, item.depth + 1, item.lineage ++ [item.ref]⟩, rfl, hitem.tail ?_⟩
        have htarget := hstep.mem_targets hrecognised hrelation
        have hgoes : ¬(item.ref ∈ item.lineage ∨ maxDepth ≤ item.depth) :=
          not_or.2 ⟨hlineage, Nat.not_le.2 hdepth⟩
        rw [nextPending, hrelation]
        simp only [if_neg hgoes]
        exact List.mem_map.2 ⟨ref, htarget, rfl⟩

/-- A base table below a root, or a relation the catalog does not know, is reported or lies behind a
boundary. -/
theorem base_or_boundary (hrecognised : AllRecognised snapshot meaning) {roots : List Chars}
    {root ref : Chars} (hroot : root ∈ rootRefs roots)
    (hpath : Relation.ReflTransGen (DependsOn snapshot meaning) root ref)
    (hbase : ∀ relation, snapshot.relation ref = some relation →
      relation.relationKind.isBase = true) :
    ref ∈ (resolve snapshot maxDepth roots).base ∨
      BehindBoundary snapshot maxDepth meaning roots root ref := by
  rcases @reached_or_behind snapshot maxDepth meaning hrecognised roots root ref hroot hpath with
    hbehind | ⟨item, rfl, hitem⟩
  · exact .inr hbehind
  · rcases resolve_recorded hroot hitem with hstopped | ⟨relation, hrelation, -, -, hmem⟩
    · exact .inr ⟨item.ref, hpath, .refl, hstopped⟩
    · exact .inl (hmem (hbase relation hrelation))

/-- **Lineage of a view.** The references found in a view definition are those its query reads just
when the query is recognised; and where all views are recognised, every base table below a root is
reported or lies behind a boundary. -/
theorem view_lineage (schema : Chars) (q : Query) (text : Chars) (snapshot : CatalogSnapshot)
    (meaning : Chars → Option Query) (maxDepth : Nat) (roots : List Chars) :
    (Written (queryTokens q) text →
      ((∀ ref, ref ∈ sourceRefs text schema ↔ ref ∈ reads schema q) ↔ Recognised schema q)) ∧
    (AllRecognised snapshot meaning → ∀ root ∈ rootRefs roots, ∀ ref,
      Relation.ReflTransGen (DependsOn snapshot meaning) root ref →
      (∀ relation, snapshot.relation ref = some relation → relation.relationKind.isBase = true) →
        ref ∈ (resolve snapshot maxDepth roots).base ∨
          BehindBoundary snapshot maxDepth meaning roots root ref) :=
  ⟨fun hwritten => sourceRefs_exact_iff hwritten,
    fun hrecognised _ hroot _ hpath hbase => base_or_boundary hrecognised hroot hpath hbase⟩

end Resolver

/-! ## Two tables -/

namespace Demo

def letter (c : Char) (hchars : isIdentifierChar c = true ∧ c ≠ '.')
    (hnot : Text.upper [c] ∉ keywords) : Name :=
  .one (.unquoted ⟨[c], List.cons_ne_nil _ _, fun _ hc => List.mem_singleton.1 hc ▸ hchars, hnot⟩)

def tableA : Name := letter 'A' (by decide) (by decide)

def tableB : Name := letter 'B' (by decide) (by decide)

/-- `SELECT * FROM A, B` -/
def commaQuery : Query := .mk [] (.block [] (.relation tableA []) [.relation tableB []] [])

def commaText : Chars := "SELECT * FROM A, B".toList

/-- `SELECT * FROM A JOIN B` -/
def joinQuery : Query :=
  .mk [] (.block [] (.join (.relation tableA []) [] (.relation tableB []) []) [] [])

def joinText : Chars := "SELECT * FROM A JOIN B".toList

theorem written_blank {c : Char} (hc : c = ' ' ∨ c = '*') {tokens : List Chars} {text : Chars}
    (h : Written tokens text) : Written tokens (c :: text) := by
  rcases hc with rfl | rfl
  all_goals
    exact .separator _ rfl (fun heq => absurd heq (by decide))
      (fun heq => absurd heq (by decide)) h

theorem written_word {token : Chars} {tokens : List Chars} {text : Chars} (hne : token ≠ [])
    (hchars : ∀ c ∈ token, isIdentifierChar c = true) (h : Written tokens text) :
    Written (token :: tokens) (token ++ ' ' :: text) := by
  refine .word token hne hchars (fun c hc => ?_) (written_blank (.inl rfl) h)
  obtain rfl := Option.some.inj hc
  rfl

/-- `SELECT * FROM A` with something behind it. -/
theorem written_select {tokens : List Chars} {text : Chars}
    (hend : ∀ c ∈ text.head?, isIdentifierChar c = false) (h : Written tokens text) :
    Written (['S', 'E', 'L', 'E', 'C', 'T'] :: ['F', 'R', 'O', 'M'] :: ['A'] :: tokens)
      (['S', 'E', 'L', 'E', 'C', 'T'] ++ ' ' :: '*' :: ' ' :: (['F', 'R', 'O', 'M'] ++ ' ' ::
        (['A'] ++ text))) :=
  written_word (by decide) (List.all_eq_true.1 (by decide)) <| written_blank (.inr rfl) <|
    written_blank (.inl rfl) <|
    written_word (by decide) (List.all_eq_true.1 (by decide)) <|
      .word ['A'] (by decide) (List.all_eq_true.1 (by decide)) hend h

theorem written_b : Written [['B']] ['B'] :=
  .word ['B'] (by decide) (List.all_eq_true.1 (by decide)) (fun _ hc => nomatch hc) .nil

theorem written_comma : Written (queryTokens commaQuery) commaText := by
  have htokens : queryTokens commaQuery =
      [['S', 'E', 'L', 'E', 'C', 'T'], ['F', 'R', 'O', 'M'], ['A'], [','], ['B']] := by decide
  rw [htokens]
  exact @written_select _ [',', ' ', 'B'] (by rintro _ ⟨⟩; rfl)
    (.mark ',' (by decide) (written_blank (.inl rfl) written_b))

theorem written_join : Written (queryTokens joinQuery) joinText := by
  have htokens : queryTokens joinQuery =
      [['S', 'E', 'L', 'E', 'C', 'T'], ['F', 'R', 'O', 'M'], ['A'], ['J', 'O', 'I', 'N'],
        ['B']] := by
    decide
  rw [htokens]
  exact @written_select _ [' ', 'J', 'O', 'I', 'N', ' ', 'B'] (by rintro _ ⟨⟩; rfl)
    (written_blank (.inl rfl)
      (@written_word ['J', 'O', 'I', 'N'] _ _ (by decide)
        (List.all_eq_true.1 (by decide)) written_b))

/-- The second table of a comma list is missed. -/
theorem comma_list_misses_table :
    ¬∀ (schema : Chars) (q : Query) (text : Chars), Written (queryTokens q) text →
      ∀ ref, ref ∈ sourceRefs text schema ↔ ref ∈ reads schema q := by
  intro h
  have hread : "S.B".toList ∈ reads ['S'] commaQuery := by decide
  have hmissed : "S.B".toList ∉ sourceRefs commaText ['S'] := by decide +kernel
  exact hmissed ((h ['S'] commaQuery commaText written_comma _).2 hread)

def snapshot : CatalogSnapshot where
  relations :=
    [⟨"S.V".toList, .view, ['S'], some joinText, none, none⟩,
      ⟨"S.A".toList, .table, ['S'], none, none, none⟩,
      ⟨"S.B".toList, .table, ['S'], none, none, none⟩]
  unique := by decide

/-- `joinText` stands for `joinQuery`. -/
def meaning (text : Chars) : Option Query := if text = joinText then some joinQuery else none

/-- Both tables of a join are found. -/
theorem view_lineage_join :
    Recognised ['S'] joinQuery ∧ AllRecognised snapshot meaning ∧
      Relation.ReflTransGen (DependsOn snapshot meaning) "S.V".toList "S.B".toList ∧
      ("S.B".toList ∈ (resolve snapshot 5 ["S.V".toList]).base ∨
        BehindBoundary snapshot 5 meaning ["S.V".toList] "S.V".toList "S.B".toList) := by
  have hlineage := view_lineage ['S'] joinQuery joinText snapshot meaning 5 ["S.V".toList]
  have hexact : ∀ ref, ref ∈ sourceRefs joinText ['S'] ↔ ref ∈ reads ['S'] joinQuery := by
    have hsources : sourceRefs joinText ['S'] = ["S.A".toList, "S.B".toList] := by decide +kernel
    have hreads : reads ['S'] joinQuery = ["S.A".toList, "S.B".toList] := by decide
    intro ref
    rw [hsources, hreads]
  have hq : Recognised ['S'] joinQuery := (hlineage.1 written_join).1 hexact
  have hall : AllRecognised snapshot meaning := by
    intro relation hrelation text q htext hmeaning
    rw [meaning] at hmeaning
    split at hmeaning
    · next heq =>
        obtain rfl := Option.some.inj hmeaning
        have hschema : relation.schemaName = ['S'] := by
          have hall : ∀ r ∈ snapshot.relations, r.schemaName = ['S'] := by decide
          exact hall relation hrelation
        exact ⟨heq ▸ written_join, hschema ▸ hq⟩
    · cases hmeaning
  have hstep : DependsOn snapshot meaning "S.V".toList "S.B".toList :=
    @DependsOn.query snapshot meaning "S.V".toList joinText "S.B".toList
      ⟨"S.V".toList, .view, ['S'], some joinText, none, none⟩ joinQuery (by decide) (.inl rfl) rfl
      (if_pos rfl) (by decide)
  refine ⟨hq, hall, .single hstep, ?_⟩
  exact hlineage.2 hall "S.V".toList (by decide) "S.B".toList (.single hstep) (by decide)

end Demo

end AtlasDb.Catalog
