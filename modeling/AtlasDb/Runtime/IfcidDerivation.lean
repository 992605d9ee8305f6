import AtlasDb.Runtime.Ifcid
import Mathlib.Algebra.BigOperators.Group.List.Basic
import Mathlib.Data.List.Induction
import Mathlib.Data.List.Sort

/-!
# What an IFCID derivation may say

A derivation must not make up evidence: a statement stands once, a count is called exact only if the
trace covers the window and lost nothing, and then it is the sum over the records of the statement,
and records that are not tied to the thread change nothing. All of it holds but the coverage: the
timestamps are compared as texts, and texts of different spelling do not compare as the instants
they denote (`derive_sound_iff`).
-/

namespace AtlasDb.Runtime.Ifcid

open Core Lib

/-! ## Sorting the records -/

theorem filter_insertionSort {α : Type} {r : α → α → Prop} [DecidableRel r] [Std.Total r]
    [IsTrans α r] (p : α → Bool) (l : List α) :
    (l.insertionSort r).filter p = (l.filter p).insertionSort r := by
  have hinsert : ∀ (a : α) (s : List α), s.Pairwise r →
      (s.orderedInsert r a).filter p =
        if p a then (s.filter p).orderedInsert r a else s.filter p := by
    intro a s
    induction s with
    | nil =>
      intro _
      cases h : p a <;> simp [h]
    | cons b s ih =>
      intro hs
      obtain ⟨hb, hs⟩ := List.pairwise_cons.mp hs
      by_cases hab : r a b
      · rw [List.orderedInsert_cons_of_le r s hab]
        cases ha : p a with
        | false => rw [List.filter_cons_of_neg (by simp [ha])]; rfl
        | true =>
          rw [List.filter_cons_of_pos ha, if_pos rfl]
          -- whatever is kept stands behind `a`
          cases hf : (b :: s).filter p with
          | nil => rfl
          | cons c rest =>
            have hc : c ∈ b :: s := List.mem_of_mem_filter (hf ▸ List.mem_cons_self)
            have hac : r a c := by
              rcases List.mem_cons.mp hc with rfl | hc
              · exact hab
              · exact trans_of r hab (hb c hc)
            rw [List.orderedInsert_cons_of_le r rest hac]
      · rw [List.orderedInsert_of_not_le r s hab]
        cases hpb : p b with
        | false =>
          rw [List.filter_cons_of_neg (by simp [hpb]), List.filter_cons_of_neg (by simp [hpb])]
          exact ih hs
        | true =>
          rw [List.filter_cons_of_pos hpb, List.filter_cons_of_pos hpb, ih hs]
          split
          · rw [List.orderedInsert_of_not_le r _ hab]
          · rfl
  induction l with
  | nil => rfl
  | cons a l ih =>
    rw [List.insertionSort_cons, hinsert a _ (List.pairwise_insertionSort r l), ih]
    cases h : p a with
    | false => rw [List.filter_cons_of_neg (by simp [h])]; rfl
    | true => rw [List.filter_cons_of_pos h, List.insertionSort_cons]; rfl

instance : Std.Total recordedLe := ⟨fun a b => le_total a.recordedAt b.recordedAt⟩

instance : IsTrans NormalizedIfcidRecord recordedLe := ⟨fun _ _ _ h h' => le_trans h h'⟩

/-! ## Counts -/

/-- The counts of an entry that the records were added to. -/
def countsOf (records : List NormalizedIfcidRecord) : List (IfcidId × Int) :=
  records.foldl (fun counts r => addCount counts r.ifcid (r.executions.getD 0)) []

theorem countsOf_append (records : List NormalizedIfcidRecord) (r : NormalizedIfcidRecord) :
    countsOf (records ++ [r]) = addCount (countsOf records) r.ifcid (r.executions.getD 0) := by
  unfold countsOf
  rw [List.foldl_append]
  rfl

theorem sum_setEntry {counts : List (IfcidId × Int)} {ifcid : IfcidId} {value : Int} :
    ((addCount counts ifcid value).map Prod.snd).sum = (counts.map Prod.snd).sum + value := by
  unfold addCount
  induction counts with
  | nil => simp [setEntry]
  | cons entry counts ih =>
    obtain ⟨other, old⟩ := entry
    rw [setEntry, List.lookup_cons]
    by_cases h : other = ifcid
    · subst h
      simp
      omega
    · rw [if_neg h, beq_false_of_ne (Ne.symm h), List.map_cons, List.sum_cons, List.map_cons,
        List.sum_cons]
      rw [ih]
      omega

/-- The counts name the IFCIDs of the records, and add up to their executions. -/
structure CountsSpec (records : List NormalizedIfcidRecord) (counts : List (IfcidId × Int)) :
    Prop where
  nodup : (counts.map Prod.fst).Nodup
  sources : ∀ ifcid, ifcid ∈ counts.map Prod.fst ↔ ∃ r ∈ records, r.ifcid = ifcid
  total : (counts.map Prod.snd).sum = (records.map fun r => r.executions.getD 0).sum

theorem countsOf_spec (records : List NormalizedIfcidRecord) :
    CountsSpec records (countsOf records) := by
  induction records using List.reverseRecOn with
  | nil => exact ⟨List.nodup_nil, by simp [countsOf], rfl⟩
  | append_singleton records r ih =>
    rw [countsOf_append]
    refine ⟨nodup_setEntry ih.nodup, fun ifcid => ?_, ?_⟩
    · unfold addCount
      rw [mem_map_fst_setEntry, ih.sources]
      constructor
      · rintro (rfl | ⟨q, hq, rfl⟩)
        · exact ⟨r, List.mem_append_right _ List.mem_cons_self, rfl⟩
        · exact ⟨q, List.mem_append_left _ hq, rfl⟩
      · rintro ⟨q, hq, rfl⟩
        rcases List.mem_append.mp hq with hq | hq
        · exact .inr ⟨q, hq, rfl⟩
        · exact .inl (congrArg _ (List.mem_singleton.mp hq))
    · rw [sum_setEntry, ih.total, List.map_append, List.sum_append]
      simp

variable {records : List NormalizedIfcidRecord}

theorem CountsSpec.single {ifcid : IfcidId} {count : Int}
    (h : CountsSpec records [(ifcid, count)]) :
    (∀ r ∈ records, r.ifcid = ifcid) ∧ count = (records.map fun r => r.executions.getD 0).sum := by
  refine ⟨fun r hr => ?_, ?_⟩
  · have hmem := (h.sources r.ifcid).mpr ⟨r, hr, rfl⟩
    exact List.mem_singleton.mp hmem
  · rw [← h.total]
    exact (add_zero count).symm

theorem CountsSpec.eq_single {counts : List (IfcidId × Int)}
    {r : NormalizedIfcidRecord} (h : CountsSpec records counts) (hr : r ∈ records)
    (hone : ∀ q ∈ records, q.ifcid = r.ifcid) : ∃ count, counts = [(r.ifcid, count)] := by
  have hmem := (h.sources r.ifcid).mpr ⟨r, hr, rfl⟩
  have hall : ∀ c ∈ counts.map Prod.fst, c = r.ifcid := by
    intro c hc
    obtain ⟨q, hq, rfl⟩ := (h.sources c).mp hc
    exact hone q hq
  have hnodup := h.nodup
  match counts, hmem, hall, hnodup with
  | [(ifcid, count)], _, hall, _ =>
    exact ⟨count, by rw [hall ifcid List.mem_cons_self]⟩
  | (first, _) :: (second, _) :: _, _, hall, hnodup =>
    have hfirst := hall first List.mem_cons_self
    have hsecond := hall second (List.mem_cons_of_mem _ List.mem_cons_self)
    rw [hfirst, ← hsecond] at hnodup
    exact absurd List.mem_cons_self (List.nodup_cons.mp hnodup).1

/-! ## The entries while the records are read -/

variable {key : String}

section Reading

variable {nfc : Nfc} {declaration : IfcidTraceDeclaration}

theorem identityKey_ne_textKey (i : StatementIdentity) (t : String) :
    identityKey nfc i ≠ textKey nfc t := by
  intro h
  have hlist := congrArg String.toList h
  unfold identityKey textKey at hlist
  rw [String.toList_append, String.toList_append] at hlist
  exact absurd (List.cons.inj hlist).1 (by decide)

/-- The records of a statement that carry a count. -/
def countedRecords (nfc : Nfc) (records : List NormalizedIfcidRecord) (key : String) :
    List NormalizedIfcidRecord :=
  records.filter fun r => (usableIdentity r).map (identityKey nfc) = some key && hasCount r

theorem text_excludes_count (c : IfcidId)
    (h : ObservationCapability.statementText ∈ (ifcidProfile c).capabilities) :
    ObservationCapability.statementExecutionCount ∉ (ifcidProfile c).capabilities := by
  revert h
  cases c <;> decide

theorem hasCount_of_usableText {r : NormalizedIfcidRecord} {t : String}
    (h : usableText r = some t) : hasCount r = false := by
  have hcapable := (Option.filter_eq_some_iff.mp h).2
  have htext := of_decide_eq_true (Bool.and_eq_true_iff.mp hcapable).2
  unfold hasCount
  rw [decide_eq_false (text_excludes_count _ htext)]
  rfl

/-- A statement known by identity. -/
def ByIdentity (nfc : Nfc) (records : List NormalizedIfcidRecord) (key : String) (e : Entry) :
    Prop :=
  (∃ i, e.identity = some i ∧ identityKey nfc i = key) ∧
    e.counts = countsOf (countedRecords nfc records key)

/-- A statement known by text only. -/
def ByText (nfc : Nfc) (key : String) (e : Entry) : Prop :=
  e.identity = none ∧ e.counts = [] ∧ ∃ t, e.text = some t ∧ textKey nfc t = key

/-- The records tell the entries: one for every identity, one for every text that came alone. -/
structure Read (nfc : Nfc) (records : List NormalizedIfcidRecord) (s : DeriveState) : Prop where
  keys : (s.entries.map Prod.fst).Nodup
  entries : ∀ key e, s.entries.lookup key = some e → ByIdentity nfc records key e ∨ ByText nfc key e
  identities : ∀ r ∈ records, ∀ i, usableIdentity r = some i →
    ∃ e, s.entries.lookup (identityKey nfc i) = some e
  linked : ∀ r ∈ records, ∀ i t, usableIdentity r = some i → usableText r = some t →
    textKey nfc t ∈ s.textToIdentity.map Prod.fst
  links : ∀ link ∈ s.textToIdentity, (∃ t, textKey nfc t = link.1) ∧
    ∃ i, identityKey nfc i = link.2 ∧ ∃ e, s.entries.lookup link.2 = some e

theorem read_nil {gaps : List IfcidGap} : Read nfc [] { gaps := gaps } where
  keys := List.nodup_nil
  entries _ _ h := by cases h
  identities _ h := by cases h
  linked _ h := by cases h
  links _ h := by cases h

theorem countedRecords_append_other {r : NormalizedIfcidRecord}
    (h : (usableIdentity r).map (identityKey nfc) ≠ some key) :
    countedRecords nfc (records ++ [r]) key = countedRecords nfc records key := by
  unfold countedRecords
  rw [List.filter_append, List.filter_cons_of_neg, List.filter_nil, List.append_nil]
  rw [decide_eq_false h, Bool.false_and]
  decide

theorem countedRecords_append_self {r : NormalizedIfcidRecord}
    (h : (usableIdentity r).map (identityKey nfc) = some key) :
    countedRecords nfc (records ++ [r]) key =
      if hasCount r then countedRecords nfc records key ++ [r]
      else countedRecords nfc records key := by
  unfold countedRecords
  rw [List.filter_append]
  cases hcount : hasCount r with
  | true =>
    rw [List.filter_cons_of_pos (by rw [decide_eq_true h, hcount]; rfl)]
    rfl
  | false =>
    rw [List.filter_cons_of_neg (by rw [hcount, Bool.and_false]; decide), List.filter_nil,
      List.append_nil]
    rfl

theorem ByIdentity.append_other {r : NormalizedIfcidRecord}
    {e : Entry} (h : ByIdentity nfc records key e)
    (hkey : (usableIdentity r).map (identityKey nfc) ≠ some key) :
    ByIdentity nfc (records ++ [r]) key e := by
  refine ⟨h.1, ?_⟩
  rw [countedRecords_append_other hkey]
  exact h.2

theorem Read.countedRecords_nil {s : DeriveState}
    (h : Read nfc records s) (hnone : s.entries.lookup key = none) :
    countedRecords nfc records key = [] := by
  unfold countedRecords
  rw [List.filter_eq_nil_iff]
  intro r hr hcounted
  have hkey := of_decide_eq_true (Bool.and_eq_true_iff.mp hcounted).1
  obtain ⟨i, hi, rfl⟩ := Option.map_eq_some_iff.mp hkey
  obtain ⟨e, he⟩ := h.identities r hr i hi
  rw [hnone] at he
  cases he

theorem add_byIdentity {s : DeriveState}
    {r : NormalizedIfcidRecord} {i : StatementIdentity} (h : Read nfc records s)
    (hi : usableIdentity r = some i) :
    ByIdentity nfc (records ++ [r]) (identityKey nfc i)
      (((s.entries.lookup (identityKey nfc i)).getD {}).add r) := by
  have hself : (usableIdentity r).map (identityKey nfc) = some (identityKey nfc i) := by
    rw [hi]
    rfl
  have hold : ∃ e : Entry, (s.entries.lookup (identityKey nfc i)).getD {} = e ∧
      (e.identity = none ∨ ∃ j, e.identity = some j ∧ identityKey nfc j = identityKey nfc i) ∧
      e.counts = countsOf (countedRecords nfc records (identityKey nfc i)) := by
    cases hlookup : s.entries.lookup (identityKey nfc i) with
    | none => exact ⟨{}, rfl, .inl rfl, by rw [h.countedRecords_nil hlookup]; rfl⟩
    | some e =>
      rcases h.entries _ e hlookup with hid | htext
      · exact ⟨e, rfl, .inr hid.1, hid.2⟩
      · obtain ⟨-, -, t, -, ht⟩ := htext
        exact absurd ht.symm (identityKey_ne_textKey i t)
  obtain ⟨e, heq, hidentity, hcounts⟩ := hold
  rw [heq]
  refine ⟨?_, ?_⟩
  · rcases hidentity with hnone | ⟨j, hj, hjkey⟩
    · exact ⟨i, by rw [Entry.add, hnone, hi]; rfl, rfl⟩
    · exact ⟨j, by rw [Entry.add, hj]; rfl, hjkey⟩
  · rw [countedRecords_append_self hself, Entry.add, hcounts]
    cases hasCount r with
    | true => rw [if_pos rfl, if_pos rfl, countsOf_append]
    | false => rfl

theorem add_byText {s : DeriveState}
    {r : NormalizedIfcidRecord} {t : String} (h : Read nfc records s)
    (hi : usableIdentity r = none) (ht : usableText r = some t) :
    ByText nfc (textKey nfc t) (((s.entries.lookup (textKey nfc t)).getD {}).add r) := by
  have hcount := hasCount_of_usableText ht
  cases hlookup : s.entries.lookup (textKey nfc t) with
  | none =>
    refine ⟨?_, ?_, t, ?_, rfl⟩
    · rw [Option.getD_none, Entry.add, hi]
      rfl
    · rw [Option.getD_none, Entry.add, hcount]
      rfl
    · rw [Option.getD_none, Entry.add, ht]
      rfl
  | some e =>
    rcases h.entries _ e hlookup with hid | ⟨hnone, hcounts, t', ht', hkey⟩
    · obtain ⟨⟨i, -, hkey⟩, -⟩ := hid
      exact absurd hkey (identityKey_ne_textKey i t)
    · refine ⟨?_, ?_, t', ?_, hkey⟩
      · rw [Option.getD_some, Entry.add, hi, hnone]
        rfl
      · rw [Option.getD_some, Entry.add, hcount, hcounts]
        rfl
      · rw [Option.getD_some, Entry.add, ht']
        rfl

theorem consume_attributable {s : DeriveState} {r : NormalizedIfcidRecord}
    (h : attributable declaration r = true) :
    (recordKey nfc r = none ∧ (consume nfc declaration s r).entries = s.entries ∧
        (consume nfc declaration s r).textToIdentity = s.textToIdentity) ∨
      ∃ key, recordKey nfc r = some key ∧
        (consume nfc declaration s r).entries =
          setEntry s.entries key (((s.entries.lookup key).getD {}).add r) ∧
        (consume nfc declaration s r).textToIdentity = nextLinks nfc s.textToIdentity r key := by
  obtain ⟨henabled, hthread⟩ := Bool.and_eq_true_iff.mp h
  unfold consume
  rw [if_neg (not_not.mpr (of_decide_eq_true henabled)),
    if_neg (by rw [of_decide_eq_true hthread]; decide)]
  cases hkey : recordKey nfc r with
  | none => exact .inl ⟨rfl, rfl, rfl⟩
  | some key => exact .inr ⟨key, rfl, rfl, rfl⟩

variable {s s' : DeriveState}

theorem Read.skip
    {r : NormalizedIfcidRecord} (h : Read nfc records s) (hi : usableIdentity r = none)
    (hentries : s'.entries = s.entries) (hlinks : s'.textToIdentity = s.textToIdentity) :
    Read nfc (records ++ [r]) s' := by
  have hother : ∀ key, (usableIdentity r).map (identityKey nfc) ≠ some key := by
    rw [hi]
    exact fun _ => nofun
  constructor
  · rw [hentries]
    exact h.keys
  · intro key e he
    rw [hentries] at he
    exact (h.entries key e he).imp_left fun hid => hid.append_other (hother key)
  · intro q hq i hqi
    rw [hentries]
    rcases List.mem_append.mp hq with hq | hq
    · exact h.identities q hq i hqi
    · rw [List.mem_singleton.mp hq, hi] at hqi
      cases hqi
  · intro q hq i t hqi hqt
    rw [hlinks]
    rcases List.mem_append.mp hq with hq | hq
    · exact h.linked q hq i t hqi hqt
    · rw [List.mem_singleton.mp hq, hi] at hqi
      cases hqi
  · rw [hlinks, hentries]
    exact h.links

/-- Reading one more record keeps the invariant. -/
theorem Read.set {r : NormalizedIfcidRecord} {e : Entry} (h : Read nfc records s)
    (he : ByIdentity nfc (records ++ [r]) key e ∨ ByText nfc key e)
    (hother : ∀ key', key' ≠ key → (usableIdentity r).map (identityKey nfc) ≠ some key')
    (hself : ∀ i, usableIdentity r = some i → identityKey nfc i = key)
    (hentries : s'.entries = setEntry s.entries key e)
    (hlinked : ∀ q ∈ records ++ [r], ∀ i t, usableIdentity q = some i → usableText q = some t →
      textKey nfc t ∈ s'.textToIdentity.map Prod.fst)
    (hlinks : ∀ link ∈ s'.textToIdentity, link ∈ s.textToIdentity ∨
      (∃ t, textKey nfc t = link.1) ∧ ∃ i, identityKey nfc i = link.2 ∧ link.2 = key) :
    Read nfc (records ++ [r]) s' := by
  have hlookup : ∀ key', s'.entries.lookup key' = if key' = key then some e
      else s.entries.lookup key' := by
    rw [hentries]
    exact fun key' => lookup_setEntry _ _ _ _
  have hkept : ∀ key', (∃ e', s.entries.lookup key' = some e') →
      ∃ e', s'.entries.lookup key' = some e' := by
    rintro key' ⟨e', he'⟩
    rw [hlookup]
    split
    · exact ⟨e, rfl⟩
    · exact ⟨e', he'⟩
  constructor
  · rw [hentries]
    exact nodup_setEntry h.keys
  · intro key' e' he'
    rw [hlookup] at he'
    split at he'
    · next heq =>
        subst heq
        cases he'
        exact he
    · next hne => exact (h.entries key' e' he').imp_left fun hid =>
        hid.append_other (hother key' hne)
  · intro q hq i hqi
    rcases List.mem_append.mp hq with hq | hq
    · exact hkept _ (h.identities q hq i hqi)
    · rw [List.mem_singleton.mp hq] at hqi
      rw [hlookup, if_pos (hself i hqi)]
      exact ⟨e, rfl⟩
  · exact hlinked
  · intro link hlink
    rcases hlinks link hlink with hold | ⟨htext, i, hi, hkey⟩
    · obtain ⟨htext, i, hi, hentry⟩ := h.links link hold
      exact ⟨htext, i, hi, hkept _ hentry⟩
    · refine ⟨htext, i, hi, e, ?_⟩
      rw [hlookup, if_pos hkey]

theorem mem_setEntry {κ ν : Type} [DecidableEq κ] {entries : List (κ × ν)} {key : κ} {value : ν}
    {entry : κ × ν} (h : entry ∈ setEntry entries key value) :
    entry ∈ entries ∨ entry = (key, value) := by
  induction entries with
  | nil => exact .inr (List.mem_singleton.mp h)
  | cons first entries ih =>
    rw [setEntry] at h
    split at h
    · rcases List.mem_cons.mp h with h | h
      · exact .inr h
      · exact .inl (List.mem_cons_of_mem _ h)
    · rcases List.mem_cons.mp h with h | h
      · exact .inl (h ▸ List.mem_cons_self)
      · exact (ih h).imp_left (List.mem_cons_of_mem _)

/-- **One record**: what the records tell of the entries is told with one record more. -/
theorem Read.consume {s : DeriveState}
    {r : NormalizedIfcidRecord} (h : Read nfc records s) (hr : attributable declaration r = true) :
    Read nfc (records ++ [r]) (consume nfc declaration s r) := by
  rcases @consume_attributable nfc declaration s r hr with ⟨hkey, hentries, hlinks⟩ |
    ⟨key, hkey, hentries, hlinks⟩
  · unfold recordKey at hkey
    cases hi : usableIdentity r with
    | some i =>
      rw [hi] at hkey
      cases hkey
    | none => exact h.skip hi hentries hlinks
  · unfold recordKey at hkey
    cases hi : usableIdentity r with
    | some i =>
      rw [hi] at hkey
      obtain rfl := Option.some.inj hkey
      refine h.set (.inl (add_byIdentity h hi)) ?_ ?_ hentries ?_ ?_
      · rw [hi]
        exact fun key' hne heq => hne (Option.some.inj heq).symm
      · intro j hj
        rw [hi] at hj
        rw [Option.some.inj hj]
      · intro q hq j t hqj hqt
        rw [hlinks, nextLinks, hi]
        rcases List.mem_append.mp hq with hq | hq
        · have hold := h.linked q hq j t hqj hqt
          cases usableText r with
          | none => exact hold
          | some t' => exact mem_map_fst_setEntry.mpr (.inr hold)
        · rw [List.mem_singleton.mp hq] at hqt
          rw [hqt]
          exact mem_map_fst_setEntry.mpr (.inl rfl)
      · intro link hlink
        rw [hlinks, nextLinks, hi] at hlink
        cases ht : usableText r with
        | none =>
          rw [ht] at hlink
          exact .inl hlink
        | some t =>
          rw [ht] at hlink
          rcases mem_setEntry hlink with hold | rfl
          · exact .inl hold
          · exact .inr ⟨⟨t, rfl⟩, i, rfl, rfl⟩
    | none =>
      rw [hi] at hkey
      obtain ⟨t, ht, rfl⟩ := Option.map_eq_some_iff.mp hkey
      have hsame : (Ifcid.consume nfc declaration s r).textToIdentity = s.textToIdentity := by
        rw [hlinks, nextLinks, hi]
      refine h.set (.inr (add_byText h hi ht)) ?_ ?_ hentries ?_ ?_
      · rw [hi]
        exact fun key' _ => nofun
      · rw [hi]
        exact fun i => nofun
      · intro q hq j t hqj hqt
        rw [hsame]
        rcases List.mem_append.mp hq with hq | hq
        · exact h.linked q hq j t hqj hqt
        · rw [List.mem_singleton.mp hq, hi] at hqj
          cases hqj
      · intro link hlink
        rw [hsame] at hlink
        exact .inl hlink

/-- **All records.** -/
theorem read_foldl {gaps : List IfcidGap} (h : ∀ r ∈ records, attributable declaration r = true) :
    Read nfc records (records.foldl (consume nfc declaration) { gaps := gaps }) := by
  induction records using List.reverseRecOn with
  | nil => exact read_nil
  | append_singleton records r ih =>
    rw [List.foldl_append]
    refine (ih fun q hq => h q (List.mem_append_left _ hq)).consume ?_
    exact h r (List.mem_append_right _ List.mem_cons_self)

/-! Records of other sources only add gaps. -/

/-- States that differ in their gaps at most. -/
def SameEvidence (s s' : DeriveState) : Prop :=
  s.entries = s'.entries ∧ s.textToIdentity = s'.textToIdentity ∧ s.sqlstate = s'.sqlstate

theorem consume_foreign {s : DeriveState} {r : NormalizedIfcidRecord}
    (h : attributable declaration r = false) : SameEvidence (consume nfc declaration s r) s := by
  unfold consume
  split
  · exact ⟨rfl, rfl, rfl⟩
  · next henabled =>
      split
      · exact ⟨rfl, rfl, rfl⟩
      · next hscope =>
          have hthread : (ifcidProfile r.ifcid).attribution = .thread := by
            cases hattribution : (ifcidProfile r.ifcid).attribution with
            | thread => rfl
            | subsystem => exact absurd hattribution hscope
          unfold attributable at h
          rw [decide_eq_true (not_not.mp henabled), decide_eq_true hthread] at h
          cases h

theorem SameEvidence.consume (h : SameEvidence s s') (r : NormalizedIfcidRecord) :
    SameEvidence (consume nfc declaration s r) (consume nfc declaration s' r) := by
  obtain ⟨hentries, hlinks, hsqlstate⟩ := h
  unfold Ifcid.consume
  rw [hentries, hlinks, hsqlstate]
  split
  · exact ⟨rfl, rfl, rfl⟩
  · split
    · exact ⟨hentries, hlinks, hsqlstate⟩
    · split
      · exact ⟨rfl, rfl, rfl⟩
      · exact ⟨rfl, rfl, rfl⟩

theorem sameEvidence_filter (records : List NormalizedIfcidRecord) (h : SameEvidence s s') :
    SameEvidence (records.foldl (consume nfc declaration) s)
      ((records.filter (attributable declaration)).foldl (consume nfc declaration) s') := by
  induction records generalizing s s' with
  | nil => exact h
  | cons r records ih =>
    cases hr : attributable declaration r with
    | true =>
      rw [List.filter_cons_of_pos hr]
      exact ih (h.consume r)
    | false =>
      rw [List.filter_cons_of_neg (by rw [hr]; decide)]
      refine ih ?_
      obtain ⟨he, hl, hs⟩ := @consume_foreign nfc declaration s r hr
      exact ⟨he.trans h.1, hl.trans h.2.1, hs.trans h.2.2⟩

end Reading

/-! ## The entries once texts are folded into identities -/

section Reconciling

variable {nfc : Nfc} {records : List NormalizedIfcidRecord}

/-- The entries when the links in `done` are folded. -/
structure Reconciled (nfc : Nfc) (records : List NormalizedIfcidRecord)
    (done : List (String × String)) (entries : List (String × Entry)) : Prop where
  keys : (entries.map Prod.fst).Nodup
  known : ∀ key e, entries.lookup key = some e → ByIdentity nfc records key e ∨ ByText nfc key e
  identities : ∀ r ∈ records, ∀ i, usableIdentity r = some i →
    ∃ e, entries.lookup (identityKey nfc i) = some e
  gone : ∀ link ∈ done, (∃ t, textKey nfc t = link.1) ∧ entries.lookup link.1 = none

theorem ByIdentity.merge {key textual : String} {e other : Entry} (h : ByIdentity nfc records key e)
    (ht : ByText nfc textual other) : ByIdentity nfc records key (e.merge other) := by
  obtain ⟨⟨i, hi, hkey⟩, hcounts⟩ := h
  refine ⟨⟨i, ?_, hkey⟩, ?_⟩
  · rw [Entry.merge, hi]
    rfl
  · rw [Entry.merge, ht.2.1]
    exact hcounts

/-- So does reconciling one more link. -/
theorem Reconciled.step {done : List (String × String)} {entries : List (String × Entry)}
    {link : String × String} (h : Reconciled nfc records done entries)
    (htext : ∃ t, textKey nfc t = link.1)
    (hlink : ∃ i, identityKey nfc i = link.2 ∧ ∃ e, entries.lookup link.2 = some e) :
    Reconciled nfc records (done ++ [link]) (reconcile entries link) := by
  obtain ⟨t, ht⟩ := htext
  obtain ⟨i, hi, byIdentity, hidentity⟩ := hlink
  have hne : link.1 ≠ link.2 := by
    rw [← ht, ← hi]
    exact (identityKey_ne_textKey i t).symm
  unfold reconcile
  rw [hidentity]
  cases hlookup : entries.lookup link.1 with
  | none =>
    refine ⟨h.keys, h.known, h.identities, fun other hother => ?_⟩
    rcases List.mem_append.mp hother with hother | hother
    · exact h.gone other hother
    · rw [List.mem_singleton.mp hother]
      exact ⟨⟨t, ht⟩, hlookup⟩
  | some byText =>
    have hmade : ByText nfc link.1 byText := by
      rcases h.known _ _ hlookup with ⟨⟨j, -, hj⟩, -⟩ | hmade
      · exact absurd (hj.trans ht.symm) (identityKey_ne_textKey j t)
      · exact hmade
    have hknown : ByIdentity nfc records link.2 byIdentity := by
      rcases h.known _ _ hidentity with hknown | ⟨-, -, u, -, hu⟩
      · exact hknown
      · exact absurd (hi.trans hu.symm) (identityKey_ne_textKey i u)
    simp only
    rw [if_pos hne]
    -- what the dictionary looks up after the text is popped and the identity is set
    have hafter : ∀ key, (setEntry (entries.filter fun entry => entry.1 ≠ link.1) link.2
        (byIdentity.merge byText)).lookup key =
        if key = link.2 then some (byIdentity.merge byText)
        else if key = link.1 then none else entries.lookup key := by
      intro key
      rw [lookup_setEntry]
      by_cases hkey : key = link.2
      · rw [if_pos hkey, if_pos hkey]
      · rw [if_neg hkey, if_neg hkey]
        by_cases hpopped : key = link.1
        · rw [if_pos hpopped, hpopped]
          cases hfound : (entries.filter fun entry => entry.1 ≠ link.1).lookup link.1 with
          | none => rfl
          | some e =>
            have hmem := (List.mem_filter.mp (mem_of_lookup hfound)).2
            exact absurd rfl (of_decide_eq_true hmem)
        · rw [if_neg hpopped]
          exact @lookup_filter_key _ _ _ entries key (fun k => k ≠ link.1) (by simpa using hpopped)
    refine ⟨nodup_setEntry ?_, ?_, ?_, ?_⟩
    · exact List.Nodup.sublist (List.filter_sublist.map _) h.keys
    · intro key e he
      rw [hafter] at he
      split at he
      · next heq =>
          subst heq
          cases he
          exact .inl (hknown.merge hmade)
      · split at he
        · cases he
        · exact h.known key e he
    · intro r hr j hj
      obtain ⟨e, he⟩ := h.identities r hr j hj
      rw [hafter]
      split
      · exact ⟨_, rfl⟩
      · split
        · next heq => exact absurd (heq.trans ht.symm) (identityKey_ne_textKey j t)
        · exact ⟨e, he⟩
    · intro other hother
      rcases List.mem_append.mp hother with hother | hother
      · obtain ⟨⟨u, hu⟩, hnone⟩ := h.gone other hother
        rw [hafter, if_neg fun heq =>
          identityKey_ne_textKey i u (hi.trans (heq.symm.trans hu.symm))]
        refine ⟨⟨u, hu⟩, ?_⟩
        split
        · rfl
        · exact hnone
      · rw [List.mem_singleton.mp hother, hafter, if_neg hne, if_pos rfl]
        exact ⟨⟨t, ht⟩, rfl⟩

theorem lookup_reconcile {entries : List (String × Entry)} {link : String × String}
    (hkey : key ≠ link.1) (h : ∃ e, entries.lookup key = some e) :
    ∃ e, (reconcile entries link).lookup key = some e := by
  unfold reconcile
  split
  · split
    · rw [lookup_setEntry]
      split
      · exact ⟨_, rfl⟩
      · obtain ⟨e, he⟩ := h
        refine ⟨e, ?_⟩
        rw [← he]
        exact @lookup_filter_key _ _ _ entries key (fun k => k ≠ link.1) (by simpa using hkey)
    · exact h
  · exact h

theorem reconciled_foldl {links done : List (String × String)} {entries : List (String × Entry)}
    (h : Reconciled nfc records done entries)
    (hlinks : ∀ link ∈ links, (∃ t, textKey nfc t = link.1) ∧
      ∃ i, identityKey nfc i = link.2 ∧ ∃ e, entries.lookup link.2 = some e) :
    Reconciled nfc records (done ++ links) (links.foldl reconcile entries) := by
  induction links generalizing done entries with
  | nil =>
    rw [List.append_nil]
    exact h
  | cons link links ih =>
    obtain ⟨⟨htext, hidentity⟩, hrest⟩ := List.forall_mem_cons.mp hlinks
    rw [List.append_cons]
    refine ih (h.step htext hidentity) fun other hother => ?_
    obtain ⟨hotext, i, hi, hentry⟩ := hrest other hother
    refine ⟨hotext, i, hi, lookup_reconcile ?_ hentry⟩
    obtain ⟨t, ht⟩ := htext
    rw [← hi, ← ht]
    exact identityKey_ne_textKey i t

/-- **The entries that are written**: each is known by an identity or by a text, and no text that a
record linked to an identity stands alone. -/
theorem reconciled_of_read {s : DeriveState} (h : Read nfc records s) :
    Reconciled nfc records s.textToIdentity (s.textToIdentity.foldl reconcile s.entries) := by
  have hstart : Reconciled nfc records [] s.entries :=
    ⟨h.keys, h.entries, h.identities, fun _ hlink => nomatch hlink⟩
  exact reconciled_foldl hstart h.links

end Reconciling

/-! ## Soundness -/

section Soundness

variable (nfc : Nfc) (declaration : IfcidTraceDeclaration) (window : IfcidInvocationWindow)
  (source : IfcidRecordSource)

/-- The declared interval covers the invocation, as instants in time. -/
def CoversInstants : Prop :=
  ∃ started stopped first last, Timestamp.instantOf declaration.traceStartedAt = some started ∧
    Timestamp.instantOf declaration.traceStoppedAt = some stopped ∧
    Timestamp.instantOf window.startedAt = some first ∧
    Timestamp.instantOf window.endedAt = some last ∧ started ≤ first ∧ last ≤ stopped

/-- The records that are consumed. -/
def consumedRecords : List NormalizedIfcidRecord :=
  (source.records declaration window.correlation).filter (attributable declaration)

/-- The source without the records of subsystem-scope or undeclared IFCIDs. -/
def IfcidRecordSource.attributed : IfcidRecordSource where
  adapterRef := source.adapterRef
  records declaration correlation :=
    (source.records declaration correlation).filter (attributable declaration)

/-- What may be said of an exact count. -/
structure ExactCount (st : ObservedStatement) : Prop where
  nothingLost : declaration.recordsPossiblyLost = false
  covered : CoversInstants declaration window
  /-- all counted records of the identity are of one IFCID, and the count is their sum -/
  total : ∃ i ifcid, st.statementIdentity = some i ∧
    (∀ r ∈ countedRecords nfc (consumedRecords declaration window source) (identityKey nfc i),
      r.ifcid = ifcid) ∧
    st.executions = some ((countedRecords nfc (consumedRecords declaration window source)
      (identityKey nfc i)).map fun r => r.executions.getD 0).sum

/-- Nothing is made up. -/
structure DerivationSound (obs : IfcidObservation) (planRef planDigest : String) : Prop where
  /-- no two statements share an identity -/
  identities : (obs.dynamicStatements.filterMap ObservedStatement.statementIdentity).Nodup
  /-- a text that a record links to an identity does not stand alone -/
  texts : ∀ st ∈ obs.dynamicStatements, st.statementIdentity = none →
    ∀ r ∈ consumedRecords declaration window source, (usableIdentity r).isSome →
      usableText r = none ∨ usableText r ≠ st.statementText
  /-- every statement is told by something -/
  told : ∀ st ∈ obs.dynamicStatements, st.statementText.isSome ∨ st.statementIdentity.isSome
  exact : ∀ st ∈ obs.dynamicStatements, st.captureQualifier = .exact →
    ExactCount nfc declaration window source st
  /-- other records change neither statements nor end state -/
  foreign : ∃ obs', derive nfc declaration window source.attributed planRef planDigest = .ok obs' ∧
    obs'.dynamicStatements = obs.dynamicStatements ∧ obs'.sqlstate = obs.sqlstate

/-- Some statement is counted, by the records of a single IFCID. -/
def CountedOnce : Prop :=
  ∃ i, ∃ r ∈ countedRecords nfc (consumedRecords declaration window source) (identityKey nfc i),
    ∀ q ∈ countedRecords nfc (consumedRecords declaration window source) (identityKey nfc i),
      q.ifcid = r.ifcid

end Soundness

section Derived

variable {nfc : Nfc} {declaration : IfcidTraceDeclaration} {window : IfcidInvocationWindow}
  {source : IfcidRecordSource} {planRef planDigest : String} {obs : IfcidObservation}

/-- The consumed records in the order they are read in. -/
def orderedRecords (declaration : IfcidTraceDeclaration) (window : IfcidInvocationWindow)
    (source : IfcidRecordSource) : List NormalizedIfcidRecord :=
  ((source.records declaration window.correlation).insertionSort recordedLe).filter
    (attributable declaration)

theorem orderedRecords_eq : orderedRecords declaration window source =
    (consumedRecords declaration window source).insertionSort recordedLe :=
  filter_insertionSort _ _

theorem orderedRecords_perm :
    (orderedRecords declaration window source).Perm
    (consumedRecords declaration window source) := by
  rw [orderedRecords_eq]
  exact List.perm_insertionSort _ _

/-- The state when the consumed records are read. -/
def readState (nfc : Nfc) (declaration : IfcidTraceDeclaration) (window : IfcidInvocationWindow)
    (source : IfcidRecordSource) : DeriveState :=
  (orderedRecords declaration window source).foldl (consume nfc declaration) { gaps := [] }

/-- The entries when the texts are folded, in the order they were made in. -/
def foldedEntries (nfc : Nfc) (declaration : IfcidTraceDeclaration)
    (window : IfcidInvocationWindow) (source : IfcidRecordSource) : List (String × Entry) :=
  (readState nfc declaration window source).textToIdentity.foldl reconcile
    (readState nfc declaration window source).entries

theorem sameEvidence_readState (gaps : List IfcidGap) :
    SameEvidence (((source.records declaration window.correlation).insertionSort recordedLe).foldl
      (consume nfc declaration) { gaps := gaps }) (readState nfc declaration window source) :=
  sameEvidence_filter _ ⟨rfl, rfl, rfl⟩

/-- A count is tainted. -/
def tainted (declaration : IfcidTraceDeclaration) (window : IfcidInvocationWindow) : Bool :=
  declaration.recordsPossiblyLost || !covers declaration window

theorem derive_eq_ok (h : derive nfc declaration window source planRef planDigest = .ok obs) :
    refusalCodes nfc declaration window source = [] ∧
      obs.dynamicStatements =
      ((foldedEntries nfc declaration window source).insertionSort keyLe).map
        (fun e => observe (tainted declaration window) e.2) ∧
      obs.sqlstate = (readState nfc declaration window source).sqlstate := by
  unfold derive at h
  split at h
  · cases h
  · next hcodes =>
      cases h
      refine ⟨not_ne_iff.mp hcodes, ?_, (sameEvidence_readState _).2.2⟩
      simp only
      rw [(sameEvidence_readState _).1, (sameEvidence_readState _).2.1]
      rfl

theorem derive_isOk (h : refusalCodes nfc declaration window source = []) :
    ∃ obs, derive nfc declaration window source planRef planDigest = .ok obs := by
  unfold derive
  rw [if_neg (not_not.mpr h)]
  exact ⟨_, rfl⟩

theorem readState_read (nfc : Nfc) (declaration : IfcidTraceDeclaration)
    (window : IfcidInvocationWindow) (source : IfcidRecordSource) :
    Read nfc (orderedRecords declaration window source) (readState nfc declaration window source) :=
  read_foldl fun _ hr => (List.mem_filter.mp hr).2

theorem foldedEntries_reconciled (nfc : Nfc) (declaration : IfcidTraceDeclaration)
    (window : IfcidInvocationWindow) (source : IfcidRecordSource) :
    Reconciled nfc (orderedRecords declaration window source)
      (readState nfc declaration window source).textToIdentity
      (foldedEntries nfc declaration window source) :=
  reconciled_of_read (readState_read nfc declaration window source)

variable {st : ObservedStatement}

theorem mem_dynamicStatements
    (h : derive nfc declaration window source planRef planDigest = .ok obs) :
    st ∈ obs.dynamicStatements ↔ ∃ key e,
      (foldedEntries nfc declaration window source).lookup key = some e ∧
        observe (tainted declaration window) e = st := by
  rw [(derive_eq_ok h).2.1, List.mem_map]
  constructor
  · rintro ⟨⟨key, e⟩, hmem, rfl⟩
    refine ⟨key, e, ?_, rfl⟩
    exact lookup_of_mem_of_nodup (foldedEntries_reconciled nfc declaration window source).keys
      ((List.mem_insertionSort _).mp hmem)
  · rintro ⟨key, e, hlookup, rfl⟩
    exact ⟨(key, e), (List.mem_insertionSort _).mpr (mem_of_lookup hlookup), rfl⟩

theorem countedRecords_perm {records records' : List NormalizedIfcidRecord}
    (h : records.Perm records') (key : String) :
    (countedRecords nfc records key).Perm (countedRecords nfc records' key) := h.filter _

theorem nodup_identities {entries : List (String × Entry)} (hkeys : (entries.map Prod.fst).Nodup)
    (h : ∀ entry ∈ entries, ∀ i, entry.2.identity = some i → identityKey nfc i = entry.1) :
    (entries.filterMap fun entry => entry.2.identity).Nodup := by
  induction entries with
  | nil => exact List.nodup_nil
  | cons entry entries ih =>
    rw [List.map_cons, List.nodup_cons] at hkeys
    obtain ⟨hentry, hrest⟩ := List.forall_mem_cons.mp h
    have hnodup := ih hkeys.2 hrest
    cases hi : entry.2.identity with
    | none =>
      simp only [List.filterMap_cons, hi]
      exact hnodup
    | some i =>
      simp only [List.filterMap_cons, hi, List.nodup_cons]
      refine ⟨fun hmem => hkeys.1 ?_, hnodup⟩
      obtain ⟨other, hother, hsame⟩ := List.mem_filterMap.mp hmem
      rw [← hentry i hi, hrest other hother i hsame]
      exact List.mem_map_of_mem hother

theorem statements_identities_nodup
    (h : derive nfc declaration window source planRef planDigest = .ok obs) :
    (obs.dynamicStatements.filterMap ObservedStatement.statementIdentity).Nodup := by
  have hfolded := foldedEntries_reconciled nfc declaration window source
  have hperm : ((foldedEntries nfc declaration window source).insertionSort keyLe).Perm
      (foldedEntries nfc declaration window source) := List.perm_insertionSort _ _
  rw [(derive_eq_ok h).2.1, List.filterMap_map]
  refine @nodup_identities nfc _ ((hperm.map Prod.fst).nodup_iff.mpr hfolded.keys) ?_
  intro entry hentry i hi
  have hlookup := lookup_of_mem_of_nodup hfolded.keys (hperm.mem_iff.mp hentry)
  rcases hfolded.known _ _ hlookup with ⟨⟨j, hj, hkey⟩, -⟩ | ⟨hnone, -⟩
  · rw [hi] at hj
    rw [Option.some.inj hj]
    exact hkey
  · rw [hi] at hnone
    cases hnone

theorem statements_texts (h : derive nfc declaration window source planRef planDigest = .ok obs)
    (hst : st ∈ obs.dynamicStatements) (hnone : st.statementIdentity = none)
    {r : NormalizedIfcidRecord} (hr : r ∈ consumedRecords declaration window source)
    (hi : (usableIdentity r).isSome) : usableText r = none ∨ usableText r ≠ st.statementText := by
  obtain ⟨key, e, hlookup, rfl⟩ := (mem_dynamicStatements h).mp hst
  obtain ⟨i, hi⟩ := Option.isSome_iff_exists.mp hi
  have hfolded := foldedEntries_reconciled nfc declaration window source
  rcases hfolded.known _ _ hlookup with ⟨⟨j, hj, -⟩, -⟩ | ⟨-, -, t, ht, hkey⟩
  · rw [show (observe _ e).statementIdentity = e.identity from rfl, hj] at hnone
    cases hnone
  · cases htext : usableText r with
    | none => exact .inl rfl
    | some u =>
      refine .inr fun hsame => ?_
      rw [show (observe _ e).statementText = e.text from rfl, ht] at hsame
      obtain rfl := Option.some.inj hsame
      have hlinked := (readState_read nfc declaration window source).linked r
        (orderedRecords_perm.mem_iff.mpr hr) i u hi htext
      obtain ⟨link, hlink, hfst⟩ := List.mem_map.mp hlinked
      have hgone := (hfolded.gone link hlink).2
      rw [hfst, hkey, hlookup] at hgone
      cases hgone

theorem statements_told (h : derive nfc declaration window source planRef planDigest = .ok obs)
    (hst : st ∈ obs.dynamicStatements) :
    st.statementText.isSome ∨ st.statementIdentity.isSome := by
  obtain ⟨key, e, hlookup, rfl⟩ := (mem_dynamicStatements h).mp hst
  rcases (foldedEntries_reconciled nfc declaration window source).known _ _ hlookup with
    ⟨⟨j, hj, -⟩, -⟩ | ⟨-, -, t, ht, -⟩
  · exact .inr (by rw [show (observe _ e).statementIdentity = e.identity from rfl, hj]; rfl)
  · exact .inl (by rw [show (observe _ e).statementText = e.text from rfl, ht]; rfl)

theorem statements_foreign (h : derive nfc declaration window source planRef planDigest = .ok obs) :
    ∃ obs', derive nfc declaration window source.attributed planRef planDigest = .ok obs' ∧
      obs'.dynamicStatements = obs.dynamicStatements ∧ obs'.sqlstate = obs.sqlstate := by
  obtain ⟨hcodes, hstatements, hsqlstate⟩ := derive_eq_ok h
  obtain ⟨obs', hobs'⟩ :=
    @derive_isOk nfc declaration window source.attributed planRef planDigest hcodes
  obtain ⟨-, hstatements', hsqlstate'⟩ := derive_eq_ok hobs'
  have hrecords : orderedRecords declaration window source.attributed =
      orderedRecords declaration window source := by
    rw [orderedRecords_eq, orderedRecords_eq]
    unfold consumedRecords IfcidRecordSource.attributed
    rw [List.filter_filter]
    simp only [Bool.and_self]
  have hstate : readState nfc declaration window source.attributed =
      readState nfc declaration window source := by
    unfold readState
    rw [hrecords]
  refine ⟨obs', hobs', ?_, by rw [hsqlstate', hsqlstate, hstate]⟩
  rw [hstatements', hstatements]
  unfold foldedEntries
  rw [hstate]

theorem observe_exact {tainted : Bool} {e : Entry}
    (h : (observe tainted e).captureQualifier = .exact) :
    tainted = false ∧ ∃ ifcid count, e.counts = [(ifcid, count)] ∧
      (observe tainted e).executions = some count := by
  change (countOf tainted e.counts).2 = .exact at h
  change tainted = false ∧ ∃ ifcid count, e.counts = [(ifcid, count)] ∧
    (countOf tainted e.counts).1 = some count
  match e.counts, h with
  | [], h => cases h
  | [(ifcid, count)], h =>
    cases tainted with
    | true => cases h
    | false => exact ⟨rfl, ifcid, count, rfl, rfl⟩
  | _ :: _ :: _, h => cases h

theorem tainted_eq_false : tainted declaration window = false ↔
    declaration.recordsPossiblyLost = false ∧ covers declaration window = true := by
  unfold tainted
  rw [Bool.or_eq_false_iff, Bool.not_eq_false']

theorem ByIdentity.countsSpec {e : Entry}
    (h : ByIdentity nfc (orderedRecords declaration window source) key e) :
    CountsSpec (countedRecords nfc (orderedRecords declaration window source) key) e.counts := by
  rw [h.2]
  exact countsOf_spec _

/-- An exact count: nothing was lost, the texts say that the window is covered, and the count is the
sum over the records of one IFCID. -/
theorem exact_statement (h : derive nfc declaration window source planRef planDigest = .ok obs)
    (hst : st ∈ obs.dynamicStatements) (hexact : st.captureQualifier = .exact) :
    declaration.recordsPossiblyLost = false ∧ covers declaration window = true ∧
      ∃ i, ∃ r ∈ countedRecords nfc (consumedRecords declaration window source) (identityKey nfc i),
        st.statementIdentity = some i ∧
        (∀ q ∈ countedRecords nfc (consumedRecords declaration window source) (identityKey nfc i),
          q.ifcid = r.ifcid) ∧
        st.executions = some ((countedRecords nfc (consumedRecords declaration window source)
          (identityKey nfc i)).map fun r => r.executions.getD 0).sum := by
  obtain ⟨key, e, hlookup, rfl⟩ := (mem_dynamicStatements h).mp hst
  obtain ⟨htainted, ifcid, count, hcounts, hexecutions⟩ := observe_exact hexact
  obtain ⟨hlost, hcovers⟩ := tainted_eq_false.mp htainted
  refine ⟨hlost, hcovers, ?_⟩
  rcases (foldedEntries_reconciled nfc declaration window source).known _ _ hlookup with
    hknown | ⟨-, hempty, -⟩
  · obtain ⟨i, hi, rfl⟩ := hknown.1
    have hperm := @countedRecords_perm nfc _ _ (@orderedRecords_perm declaration window source)
      (identityKey nfc i)
    have hspec := hknown.countsSpec
    rw [hcounts] at hspec
    obtain ⟨hsource, hsum⟩ := hspec.single
    obtain ⟨r, hr, hifcid⟩ := (hspec.sources ifcid).mp List.mem_cons_self
    refine ⟨i, r, hperm.mem_iff.mp hr, hi, fun q hq => ?_, ?_⟩
    · rw [hifcid]
      exact hsource q (hperm.mem_iff.mpr hq)
    · rw [hexecutions, hsum, (hperm.map _).sum_eq]
  · rw [hempty] at hcounts
    cases hcounts

theorem exists_exact (h : derive nfc declaration window source planRef planDigest = .ok obs)
    (hlost : declaration.recordsPossiblyLost = false) (hcovers : covers declaration window = true)
    (hcounted : CountedOnce nfc declaration window source) :
    ∃ st ∈ obs.dynamicStatements, st.captureQualifier = .exact := by
  obtain ⟨i, r, hr, hone⟩ := hcounted
  have hperm := @countedRecords_perm nfc _ _ (@orderedRecords_perm declaration window source)
    (identityKey nfc i)
  have hmem := List.mem_filter.mp (hperm.mem_iff.mpr hr)
  obtain ⟨j, hj, hkey⟩ :=
    Option.map_eq_some_iff.mp (of_decide_eq_true (Bool.and_eq_true_iff.mp hmem.2).1)
  have hfolded := foldedEntries_reconciled nfc declaration window source
  obtain ⟨e, hlookup⟩ := hfolded.identities r hmem.1 j hj
  rw [hkey] at hlookup
  refine ⟨_, (mem_dynamicStatements h).mpr ⟨_, e, hlookup, rfl⟩, ?_⟩
  rcases hfolded.known _ _ hlookup with hknown | ⟨-, -, t, -, ht⟩
  · obtain ⟨count, hcounts⟩ := hknown.countsSpec.eq_single (hperm.mem_iff.mpr hr)
      fun q hq => hone q (hperm.mem_iff.mp hq)
    show (countOf _ e.counts).2 = .exact
    rw [hcounts, tainted_eq_false.mpr ⟨hlost, hcovers⟩]
    rfl
  · exact absurd ht.symm (identityKey_ne_textKey i t)

/-- **A derivation fabricates nothing just when its coverage is one in time**, or when no exact
count depends on it. -/
theorem derive_sound_iff (h : derive nfc declaration window source planRef planDigest = .ok obs) :
    DerivationSound nfc declaration window source obs planRef planDigest ↔
      CoversInstants declaration window ∨ declaration.recordsPossiblyLost = true ∨
        covers declaration window = false ∨ ¬ CountedOnce nfc declaration window source := by
  constructor
  · intro hsound
    by_contra hnot
    obtain ⟨hinstants, hlost, hcovers, hcounted⟩ :
        ¬ CoversInstants declaration window ∧ declaration.recordsPossiblyLost ≠ true ∧
          covers declaration window ≠ false ∧ CountedOnce nfc declaration window source :=
      ⟨fun hc => hnot (.inl hc), fun hl => hnot (.inr (.inl hl)),
        fun hc => hnot (.inr (.inr (.inl hc))),
        by_contra fun hc => hnot (.inr (.inr (.inr hc)))⟩
    obtain ⟨st, hst, hexact⟩ := exists_exact h (Bool.eq_false_iff.mpr hlost)
      (Bool.of_not_eq_false hcovers) hcounted
    exact hinstants (hsound.exact st hst hexact).covered
  · intro hcondition
    refine ⟨statements_identities_nodup h, fun st hst hnone r hr hi =>
      statements_texts h hst hnone hr hi,
      fun st hst => statements_told h hst, fun st hst hexact => ?_, statements_foreign h⟩
    obtain ⟨hlost, hcovers, i, r, hr, hi, hone, hexecutions⟩ := exact_statement h hst hexact
    refine ⟨hlost, ?_, i, r.ifcid, hi, hone, hexecutions⟩
    rcases hcondition with hinstants | hpossibly | huncovered | huncounted
    · exact hinstants
    · rw [hlost] at hpossibly
      cases hpossibly
    · rw [hcovers] at huncovered
      cases huncovered
    · exact absurd ⟨i, r, hr, hone⟩ huncounted

end Derived

namespace Demo

def undigested : IfcidTraceDeclaration where
  declarationId := "D"
  subsystemId := "DB2A"
  db2Version := "13"
  enabledIfcids := [.sqlStatementEnd]
  traceStartedAt := "2026-01-01T00:00:00Z"
  traceStoppedAt := "2026-01-01T01:00:00Z"
  destination := "SMF"
  recordsPossiblyLost := false
  normalizationAdapterRef := "A"
  attestationRef := "T"
  contentDigest := ""

/-- A trace of one hour, with the digest of its declaration. -/
def hourTrace : IfcidTraceDeclaration :=
  { undigested with
    contentDigest := ((canonicalDigest asciiNfc undigested.dump).toOption).getD "" }

def oneIdentity : StatementIdentity := ⟨some "C", some "P", none, some 1, none, none⟩

/-- The end of one statement that ran once. -/
def oneRecord : NormalizedIfcidRecord :=
  ⟨.sqlStatementEnd, "2026-01-01T00:40:00Z", some oneIdentity, none, .static, some 1, none⟩

def oneSource : IfcidRecordSource := ⟨"A", fun _ _ => [oneRecord]⟩

def invocation (startedAt : String) : IfcidInvocationWindow :=
  ⟨"I", startedAt, "2026-01-01T00:45:00Z", ⟨some "L", none, none, none, none, none⟩⟩

theorem oneRecord_admitted (startedAt : String) :
    refusalCodes asciiNfc hourTrace (invocation startedAt) oneSource = [] := by
  have hdigest : canonicalDigest asciiNfc hourTrace.dump = .ok hourTrace.contentDigest := by
    obtain ⟨digest, hdigest⟩ : ∃ digest, canonicalDigest asciiNfc undigested.dump = .ok digest :=
      ⟨_, rfl⟩
    show canonicalDigest asciiNfc undigested.dump =
      .ok (((canonicalDigest asciiNfc undigested.dump).toOption).getD "")
    rw [hdigest]
    rfl
  unfold refusalCodes
  rw [if_pos hdigest]
  rfl

theorem oneRecord_countedOnce (startedAt : String) :
    CountedOnce asciiNfc hourTrace (invocation startedAt) oneSource := by
  have hconsumed : consumedRecords hourTrace (invocation startedAt) oneSource = [oneRecord] := rfl
  have hidentity : usableIdentity oneRecord = some oneIdentity := rfl
  unfold CountedOnce
  rw [hconsumed]
  refine ⟨oneIdentity, oneRecord, List.mem_filter.mpr ⟨List.mem_cons_self, ?_⟩, fun q hq => ?_⟩
  · rw [hidentity]
    exact Bool.and_eq_true_iff.mpr ⟨decide_eq_true rfl, rfl⟩
  · rw [List.mem_singleton.mp (List.mem_filter.mp hq).1]

/-- An invocation within the hour. -/
theorem derive_within_sound :
    ∃ obs, derive asciiNfc hourTrace (invocation "2026-01-01T01:30:00+01:00") oneSource "P" "D"
        = .ok obs ∧
      DerivationSound asciiNfc hourTrace (invocation "2026-01-01T01:30:00+01:00") oneSource obs
        "P" "D" := by
  obtain ⟨obs, hobs⟩ :=
    @derive_isOk _ _ _ _ "P" "D" (oneRecord_admitted "2026-01-01T01:30:00+01:00")
  refine ⟨obs, hobs, (derive_sound_iff hobs).mpr (.inl ?_)⟩
  refine ⟨63902908800000000, 63902912400000000, 63902910600000000, 63902911500000000,
    by decide +kernel, by decide +kernel, by decide +kernel, by decide +kernel, ?_, ?_⟩
  · omega
  · omega

/-- An invocation that began half an hour before the trace, in local time. -/
theorem derive_early_unsound :
    ∃ obs, derive asciiNfc hourTrace (invocation "2026-01-01T00:30:00+01:00") oneSource "P" "D"
        = .ok obs ∧
      ¬ DerivationSound asciiNfc hourTrace (invocation "2026-01-01T00:30:00+01:00") oneSource obs
        "P" "D" := by
  obtain ⟨obs, hobs⟩ :=
    @derive_isOk _ _ _ _ "P" "D" (oneRecord_admitted "2026-01-01T00:30:00+01:00")
  refine ⟨obs, hobs, fun hsound => ?_⟩
  obtain ⟨st, hst, hexact⟩ := exists_exact hobs rfl (by decide) (oneRecord_countedOnce _)
  obtain ⟨started, stopped, first, last, hstarted, -, hfirst, -, hle, -⟩ :=
    (hsound.exact st hst hexact).covered
  have htrace : Timestamp.instantOf "2026-01-01T00:00:00Z" = some 63902908800000000 := by
    decide +kernel
  have hwindow : Timestamp.instantOf "2026-01-01T00:30:00+01:00" = some 63902907000000000 := by
    decide +kernel
  obtain rfl := Option.some.inj (htrace.symm.trans hstarted)
  obtain rfl := Option.some.inj (hwindow.symm.trans hfirst)
  omega

end Demo

end AtlasDb.Runtime.Ifcid
