import AtlasDb.Core.Instant
import AtlasDb.Core.JsonText

/-!
# Reading canonical text back

What `canonical_json_bytes` prints is read by `json.loads` and canonicalised again when a stored
payload is checked. Reading gives back the projected document with its keys in order; canonicalising
that normalises its strings (`project_toPy_eq`). The strings of the projection are normalised
already, with one exception: the text under a `$path` tag is printed as it is. So the bytes come out
the same just when the paths of the value are normalised (`canonicalJsonBytes_reread_iff`).
-/

namespace AtlasDb.Core

namespace Json

variable (nfc : Nfc)

mutual

/-- A document `_project` can return: floats are texts of floats, keys are normalised, none stands
twice. -/
def Projected : Json → Prop
  | float repr => isFloat repr.toList = true
  | arr items => ProjectedList items
  | obj members => (members.map Prod.fst).Nodup ∧ ProjectedMembers members
  | _ => True

def ProjectedList : List Json → Prop
  | [] => True
  | j :: js => Projected j ∧ ProjectedList js

def ProjectedMembers : List (String × Json) → Prop
  | [] => True
  | (k, j) :: ms => (nfc.normalize k = k ∧ Projected j) ∧ ProjectedMembers ms

end

variable {nfc}

theorem projectedList_iff {js : List Json} : ProjectedList nfc js ↔ ∀ j ∈ js, Projected nfc j := by
  induction js with
  | nil => simp [ProjectedList]
  | cons j js ih => simp [ProjectedList, ih]

theorem projectedMembers_iff {ms : List (String × Json)} :
    ProjectedMembers nfc ms ↔ ∀ m ∈ ms, nfc.normalize m.1 = m.1 ∧ Projected nfc m.2 := by
  induction ms with
  | nil => simp [ProjectedMembers]
  | cons m ms ih =>
    obtain ⟨k, j⟩ := m
    simp [ProjectedMembers, ih]

mutual

theorem Projected.printable : ∀ {j : Json}, Projected nfc j → Printable j
  | .null, _ => trivial
  | .bool _, _ => trivial
  | .int _, _ => trivial
  | .float _, h => h
  | .str _, _ => trivial
  | .arr items, h => @printableList_of_projected items h
  | .obj members, h => ⟨h.1, @printableMembers_of_projected members h.2⟩

theorem printableList_of_projected : ∀ {js : List Json}, ProjectedList nfc js → PrintableList js
  | [], _ => trivial
  | _ :: _, h => ⟨h.1.printable, printableList_of_projected h.2⟩

theorem printableMembers_of_projected : ∀ {m : List (String × Json)}, ProjectedMembers nfc m →
    PrintableMembers m
  | [], _ => trivial
  | (_, _) :: _, h => ⟨h.1.2.printable, printableMembers_of_projected h.2⟩

end

/-! ## Normalising and sorting -/

theorem renormalizeMembers_eq_map (ms : List (String × Json)) :
    renormalizeMembers nfc ms = ms.map fun m => (m.1, m.2.renormalize nfc) := by
  induction ms with
  | nil => rfl
  | cons m ms ih =>
    obtain ⟨k, j⟩ := m
    simp [renormalizeMembers, ih]

theorem map_fst_renormalizeMembers (ms : List (String × Json)) :
    (renormalizeMembers nfc ms).map Prod.fst = ms.map Prod.fst := by
  rw [renormalizeMembers_eq_map, List.map_map]
  rfl

mutual

theorem sortKeys_renormalize : ∀ j : Json,
    (j.renormalize nfc).sortKeys = j.sortKeys.renormalize nfc
  | .null => rfl
  | .bool _ => rfl
  | .int _ => rfl
  | .float _ => rfl
  | .str _ => rfl
  | .arr items =>
    by rw [renormalize, sortKeys, sortKeys, renormalize, sortKeysList_renormalize items]
  | .obj members => by
      have hsort := List.map_insertionSort keyLe keyLe
        (fun m : String × Json => (m.1, m.2.renormalize nfc)) (sortKeysMembers members)
        fun _ _ _ _ => Iff.rfl
      rw [renormalize, sortKeys, sortKeys, renormalize, sortKeysMembers_renormalize members,
        renormalizeMembers_eq_map, renormalizeMembers_eq_map, hsort]

theorem sortKeysList_renormalize : ∀ js : List Json,
    sortKeysList (renormalizeList nfc js) = renormalizeList nfc (sortKeysList js)
  | [] => rfl
  | j :: js => by
      rw [renormalizeList, sortKeysList, sortKeysList, renormalizeList, sortKeys_renormalize j,
        sortKeysList_renormalize js]

theorem sortKeysMembers_renormalize : ∀ ms : List (String × Json),
    sortKeysMembers (renormalizeMembers nfc ms) = renormalizeMembers nfc (sortKeysMembers ms)
  | [] => rfl
  | (k, j) :: ms => by
      rw [renormalizeMembers, sortKeysMembers, sortKeysMembers, renormalizeMembers,
        sortKeys_renormalize j, sortKeysMembers_renormalize ms]

end

mutual

theorem Projected.sortKeys : ∀ {j : Json}, Projected nfc j → Projected nfc j.sortKeys
  | .null, _ => trivial
  | .bool _, _ => trivial
  | .int _, _ => trivial
  | .float _, h => h
  | .str _, _ => trivial
  | .arr items, h => @projectedList_sortKeys items h
  | .obj members, h => by
      have hperm := List.perm_insertionSort keyLe (sortKeysMembers members)
      have hkeys : (sortKeysMembers members).map Prod.fst = members.map Prod.fst := by
        rw [sortKeysMembers_eq_map, List.map_map]
        rfl
      refine ⟨?_, ?_⟩
      · rw [(hperm.map Prod.fst).nodup_iff, hkeys]
        exact h.1
      · rw [projectedMembers_iff]
        intro m hm
        exact projectedMembers_iff.mp (projectedMembers_sortKeys h.2) m (hperm.mem_iff.mp hm)

theorem projectedList_sortKeys : ∀ {js : List Json}, ProjectedList nfc js →
    ProjectedList nfc (sortKeysList js)
  | [], _ => trivial
  | _ :: _, h => ⟨h.1.sortKeys, projectedList_sortKeys h.2⟩

theorem projectedMembers_sortKeys : ∀ {ms : List (String × Json)}, ProjectedMembers nfc ms →
    ProjectedMembers nfc (sortKeysMembers ms)
  | [], _ => trivial
  | (_, _) :: _, h => ⟨⟨h.1.1, h.1.2.sortKeys⟩, projectedMembers_sortKeys h.2⟩

end

mutual

theorem Printable.renormalize : ∀ {j : Json}, Printable j → Printable (j.renormalize nfc)
  | .null, _ => trivial
  | .bool _, _ => trivial
  | .int _, _ => trivial
  | .float _, h => h
  | .str _, _ => trivial
  | .arr items, h => @printableList_renormalize items h
  | .obj members, h =>
    ⟨(map_fst_renormalizeMembers members).symm ▸ h.1, @printableMembers_renormalize members h.2⟩

theorem printableList_renormalize : ∀ {js : List Json}, PrintableList js →
    PrintableList (renormalizeList nfc js)
  | [], _ => trivial
  | _ :: _, h => ⟨h.1.renormalize, printableList_renormalize h.2⟩

theorem printableMembers_renormalize : ∀ {ms : List (String × Json)}, PrintableMembers ms →
    PrintableMembers (renormalizeMembers nfc ms)
  | [], _ => trivial
  | (_, _) :: _, h => ⟨h.1.renormalize, printableMembers_renormalize h.2⟩

end

/-! ## Canonical documents are those that normalising leaves alone -/

mutual

theorem canonical_iff_renormalize : ∀ {j : Json}, Projected nfc j →
    (Canonical nfc j ↔ j.renormalize nfc = j)
  | .null, _ => ⟨fun _ => rfl, fun _ => trivial⟩
  | .bool _, _ => ⟨fun _ => rfl, fun _ => trivial⟩
  | .int _, _ => ⟨fun _ => rfl, fun _ => trivial⟩
  | .float _, _ => ⟨fun _ => rfl, fun _ => trivial⟩
  | .str s, _ => ⟨fun h => congrArg str h, fun h => str.inj h⟩
  | .arr items, h => by
      have hitems := @canonicalList_iff_renormalize items h
      exact ⟨fun hc => congrArg arr (hitems.1 hc), fun heq => hitems.2 (arr.inj heq)⟩
  | .obj members, h => by
      have hmembers := @canonicalMembers_iff_renormalize members h.2
      exact ⟨fun hc => congrArg obj (hmembers.1 hc.2),
        fun heq => ⟨h.1, hmembers.2 (obj.inj heq)⟩⟩

theorem canonicalList_iff_renormalize : ∀ {js : List Json}, ProjectedList nfc js →
    (CanonicalList nfc js ↔ renormalizeList nfc js = js)
  | [], _ => ⟨fun _ => rfl, fun _ => trivial⟩
  | j :: js, h => by
      rw [CanonicalList, canonical_iff_renormalize h.1, canonicalList_iff_renormalize h.2,
        renormalizeList, List.cons.injEq]

theorem canonicalMembers_iff_renormalize : ∀ {ms : List (String × Json)}, ProjectedMembers nfc ms →
    (CanonicalMembers nfc ms ↔ renormalizeMembers nfc ms = ms)
  | [], _ => ⟨fun _ => rfl, fun _ => trivial⟩
  | (k, j) :: ms, h => by
      rw [CanonicalMembers, canonical_iff_renormalize h.1.2, canonicalMembers_iff_renormalize h.2,
        renormalizeMembers, List.cons.injEq, Prod.mk.injEq]
      exact ⟨fun hc => ⟨⟨rfl, hc.1.2⟩, hc.2⟩, fun heq => ⟨⟨h.1.1, heq.1.2⟩, heq.2⟩⟩

end

mutual

theorem canonical_of_sortKeys : ∀ {j : Json}, Canonical nfc j.sortKeys → Canonical nfc j
  | .null, _ => trivial
  | .bool _, _ => trivial
  | .int _, _ => trivial
  | .float _, _ => trivial
  | .str _, h => h
  | .arr items, h => @canonicalList_of_sortKeys items h
  | .obj members, h => by
      have hperm := List.perm_insertionSort keyLe (sortKeysMembers members)
      have hkeys : (sortKeysMembers members).map Prod.fst = members.map Prod.fst := by
        rw [sortKeysMembers_eq_map, List.map_map]
        rfl
      refine ⟨?_, canonicalMembers_of_sortKeys (canonicalMembers_iff.mpr fun m hm => ?_)⟩
      · rw [← hkeys, ← (hperm.map Prod.fst).nodup_iff]
        exact h.1
      · exact canonicalMembers_iff.mp h.2 m (hperm.mem_iff.mpr hm)

theorem canonicalList_of_sortKeys : ∀ {js : List Json}, CanonicalList nfc (sortKeysList js) →
    CanonicalList nfc js
  | [], _ => trivial
  | _ :: _, h => ⟨canonical_of_sortKeys h.1, canonicalList_of_sortKeys h.2⟩

theorem canonicalMembers_of_sortKeys : ∀ {ms : List (String × Json)},
    CanonicalMembers nfc (sortKeysMembers ms) → CanonicalMembers nfc ms
  | [], _ => trivial
  | (_, _) :: _, h => ⟨⟨h.1.1, canonical_of_sortKeys h.1.2⟩, canonicalMembers_of_sortKeys h.2⟩

end

end Json

/-! ## Canonicalising a document -/

mutual

theorem project_toPy_eq {nfc : Nfc} : ∀ {j : Json}, j.Projected nfc →
    project nfc j.toPy = .ok (j.renormalize nfc)
  | .null, _ => rfl
  | .bool _, _ => rfl
  | .int _, _ => rfl
  | .float _, _ => rfl
  | .str _, _ => rfl
  | .arr items, h => by
      have hitems := @projectList_toPyList_eq nfc items h
      rw [Json.toPy, project, hitems]
      rfl
  | .obj members, h => by
      have hmembers := projectItems_toPyMembers_eq members [] h.2 h.1
      rw [Json.toPy, project, hmembers]
      rfl

theorem projectList_toPyList_eq {nfc : Nfc} : ∀ {js : List Json}, Json.ProjectedList nfc js →
    projectList nfc (Json.toPyList js) = .ok (Json.renormalizeList nfc js)
  | [], _ => rfl
  | j :: js, h => by
      rw [Json.toPyList, projectList, project_toPy_eq h.1, projectList_toPyList_eq h.2]
      rfl

theorem projectItems_toPyMembers_eq {nfc : Nfc} : ∀ (ms projected : List (String × Json)),
    Json.ProjectedMembers nfc ms → ((projected ++ ms).map Prod.fst).Nodup →
    projectItems nfc projected (Json.toPyMembers ms)
      = .ok (projected ++ Json.renormalizeMembers nfc ms)
  | [], projected, _, _ => by
      rw [Json.toPyMembers, projectItems, Json.renormalizeMembers, List.append_nil]
  | (k, j) :: ms, projected, h, hnodup => by
      have hfresh : k ∉ projected.map Prod.fst := by
        rw [List.map_append, List.map_cons] at hnodup
        exact fun hk => List.disjoint_of_nodup_append hnodup hk List.mem_cons_self
      have hrest := projectItems_toPyMembers_eq ms (projected ++ [(k, j.renormalize nfc)]) h.2
        (by simpa using hnodup)
      simp [Json.toPyMembers, projectItems, keyText, project_toPy_eq h.1.2,
        addMember_fresh h.1.1 hfresh, hrest, bind, Except.bind, Json.renormalizeMembers]

end

/-- The key by which a set is sorted is the canonical bytes of a projected item. -/
theorem sortKey_eq {nfc : Nfc} {j : Json} (h : j.Projected nfc) :
    canonicalJsonBytes nfc j.toPy = .ok (j.sortKey nfc) := by
  rw [canonicalJsonBytes, project_toPy_eq h]
  rfl

/-! ## The texts under the tags

All but the text of a path are ASCII, which normalising leaves alone. -/

open Timestamp

def Ascii (text : List Char) : Prop := ∀ c ∈ text, c.toNat < 128

theorem Ascii.append {xs ys : List Char} (hx : Ascii xs) (hy : Ascii ys) : Ascii (xs ++ ys) :=
  fun c hc => (List.mem_append.mp hc).elim (hx c) (hy c)

theorem Ascii.cons {c : Char} {text : List Char} (hc : c.toNat < 128) (h : Ascii text) :
    Ascii (c :: text) := List.forall_mem_cons.mpr ⟨hc, h⟩

theorem ascii_nil : Ascii [] := nofun

theorem Ascii.normalize {text : List Char} (h : Ascii text) (nfc : Nfc) :
    nfc.normalize (String.ofList text) = String.ofList text := by
  refine nfc.ascii _ ?_
  rw [String.toList_ofList, List.all_eq_true]
  exact fun c hc => decide_eq_true (h c hc)

theorem ascii_digitChar (n : Nat) : (digitChar n).toNat < 128 := by
  rw [← digitChar_mod, digitChar_toNat (Nat.mod_lt _ (by decide))]
  have hlt : n % 10 < 10 := Nat.mod_lt _ (by decide)
  omega

theorem ascii_pad (width n : Nat) : Ascii (pad width n) := by
  induction width generalizing n with
  | zero => exact ascii_nil
  | succ width ih => exact (ih (n / 10)).append (ascii_nil.cons (ascii_digitChar n))

theorem ascii_mark {c : Char} (hc : c.toNat < 128) (width n : Nat) : Ascii (c :: pad width n) :=
  (ascii_pad width n).cons hc

theorem ascii_isoformatUtc (date : Date) (clock : Clock) : Ascii (isoformatUtc date clock) := by
  unfold isoformatUtc
  refine Ascii.append ?_ (ascii_nil.cons (by decide))
  refine Ascii.append ?_ (ascii_mark (by decide) 6 _)
  refine Ascii.append ?_ (ascii_mark (by decide) 2 _)
  refine Ascii.append ?_ (ascii_mark (by decide) 2 _)
  refine Ascii.append ?_ (ascii_mark (by decide) 2 _)
  refine Ascii.append ?_ (ascii_mark (by decide) 2 _)
  exact (ascii_pad 4 _).append (ascii_mark (by decide) 2 _)

theorem ascii_isoformatDate (date : Date) : Ascii (isoformatDate date) :=
  ((ascii_pad 4 _).append (ascii_mark (by decide) 2 _)).append (ascii_mark (by decide) 2 _)

theorem ascii_base64Char (n : Nat) : (base64Char n).toNat < 128 := by
  unfold base64Char
  rw [List.getD_eq_getElem?_getD]
  cases h : "ABCDEFGHIJKLMNOPQRSTUVWXYZabcdefghijklmnopqrstuvwxyz0123456789+/".toList[n]? with
  | none => decide
  | some c =>
    have hall : ("ABCDEFGHIJKLMNOPQRSTUVWXYZabcdefghijklmnopqrstuvwxyz0123456789+/".toList.all
        fun c => decide (c.toNat < 128)) = true := by decide
    exact of_decide_eq_true (List.all_eq_true.mp hall c (List.mem_of_getElem? h))

theorem ascii_base64 : ∀ octets : List UInt8, Ascii (base64 octets)
  | [] => ascii_nil
  | [_] =>
    (((ascii_nil.cons (by decide)).cons (by decide)).cons (ascii_base64Char _)).cons
      (ascii_base64Char _)
  | [_, _] =>
    (((ascii_nil.cons (by decide)).cons (ascii_base64Char _)).cons (ascii_base64Char _)).cons
      (ascii_base64Char _)
  | _ :: _ :: _ :: rest =>
    ((((ascii_base64 rest).cons (ascii_base64Char _)).cons (ascii_base64Char _)).cons
      (ascii_base64Char _)).cons (ascii_base64Char _)

/-! ## Values -/

mutual

/-- A value whose scalars are such: the text of a float is one, `str` of a decimal is ASCII, and an
offset is shorter than a day. -/
def PyValue.WellFormed : PyValue → Prop
  | .float repr => Json.isFloat repr.toList = true
  | .decimal text => Ascii text.toList
  | .datetime value => ∀ offset ∈ value.offset, |offset| < microsPerDay
  | .enum value => value.WellFormed
  | .list items => wellFormedList items
  | .set items => wellFormedList items
  | .dict items => wellFormedItems items
  | .model fields => wellFormedFields fields
  | _ => True

def wellFormedList : List PyValue → Prop
  | [] => True
  | v :: vs => v.WellFormed ∧ wellFormedList vs

def wellFormedItems : List (PyValue × PyValue) → Prop
  | [] => True
  | (_, v) :: rest => v.WellFormed ∧ wellFormedItems rest

def wellFormedFields : List (String × PyValue) → Prop
  | [] => True
  | (_, v) :: rest => v.WellFormed ∧ wellFormedFields rest

end

variable (nfc : Nfc)

mutual

/-- The text of every path in a value is normalised. -/
def PyValue.PathsNormal : PyValue → Prop
  | .path posix => nfc.normalize posix = posix
  | .enum value => value.PathsNormal
  | .list items => pathsNormalList items
  | .set items => pathsNormalList items
  | .dict items => pathsNormalItems items
  | .model fields => pathsNormalFields fields
  | _ => True

def pathsNormalList : List PyValue → Prop
  | [] => True
  | v :: vs => v.PathsNormal ∧ pathsNormalList vs

def pathsNormalItems : List (PyValue × PyValue) → Prop
  | [] => True
  | (_, v) :: rest => v.PathsNormal ∧ pathsNormalItems rest

def pathsNormalFields : List (String × PyValue) → Prop
  | [] => True
  | (_, v) :: rest => v.PathsNormal ∧ pathsNormalFields rest

end

variable {nfc}

theorem tagged_projected {tag text : String} (htag : nfc.normalize tag = tag) :
    (tagged tag text).Projected nfc := ⟨by simp, ⟨htag, trivial⟩, trivial⟩

theorem tagged_canonical_iff {tag text : String} (htag : nfc.normalize tag = tag) :
    (tagged tag text).Canonical nfc ↔ nfc.normalize text = text :=
  ⟨fun h => h.2.1.2, fun h => ⟨by simp, ⟨htag, h⟩, trivial⟩⟩

theorem tagged_ascii {tag : String} {text : List Char} (htag : nfc.normalize tag = tag)
    (h : Ascii text) : (tagged tag (String.ofList text)).Projected nfc ∧
      ((tagged tag (String.ofList text)).Canonical nfc ↔ True) :=
  ⟨tagged_projected htag, iff_true_intro ((tagged_canonical_iff htag).2 (h.normalize nfc))⟩

/-- The object under construction, when the entries so far are normal as stated. -/
def ObjectSoFar (nfc : Nfc) (normal : Prop) (members : List (String × Json)) : Prop :=
  (members.map Prod.fst).Nodup ∧ Json.ProjectedMembers nfc members ∧
    (Json.CanonicalMembers nfc members ↔ normal)

/-- One more member keeps the invariant. -/
theorem ObjectSoFar.addMember {normal : Prop} {item : Prop}
    {projected members : List (String × Json)}
    {key : String} {j : Json} (hp : ObjectSoFar nfc normal projected) (hj : j.Projected nfc)
    (hitem : j.Canonical nfc ↔ item) (h : addMember nfc projected key j = .ok members) :
    ObjectSoFar nfc (normal ∧ item) members := by
  unfold Core.addMember at h
  split at h
  · cases h
  · next hfresh =>
      cases h
      refine ⟨?_, ?_, ?_⟩
      · rw [List.map_append, List.nodup_append]
        refine ⟨hp.1, by simp, ?_⟩
        intro k hk k' hk' heq
        obtain rfl : k' = nfc.normalize key := by simpa using hk'
        exact hfresh (heq ▸ hk)
      · rw [Json.projectedMembers_iff]
        intro m hm
        rcases List.mem_append.mp hm with hm | hm
        · exact Json.projectedMembers_iff.mp hp.2.1 m hm
        · rw [List.mem_singleton.mp hm]
          exact ⟨nfc.idem key, hj⟩
      · rw [← hp.2.2, ← hitem, Json.canonicalMembers_iff, Json.canonicalMembers_iff]
        constructor
        · intro hall
          exact ⟨fun m hm => hall m (List.mem_append_left _ hm),
            (hall (nfc.normalize key, j) (List.mem_append_right _ List.mem_cons_self)).2⟩
        · rintro ⟨hold, hnew⟩ m hm
          rcases List.mem_append.mp hm with hm | hm
          · exact hold m hm
          · rw [List.mem_singleton.mp hm]
            exact ⟨nfc.idem key, hnew⟩

theorem objectSoFar_nil : ObjectSoFar nfc True [] :=
  ⟨List.nodup_nil, trivial, Iff.rfl⟩

mutual

/-- **What is projected**: a document whose keys are canonical, and whose strings are just when the
paths of the value are normalised. -/
theorem project_normal : ∀ {v : PyValue} {j : Json}, v.WellFormed → project nfc v = .ok j →
    j.Projected nfc ∧ (j.Canonical nfc ↔ v.PathsNormal nfc)
  | .none, _, _, h => by cases h; exact ⟨trivial, Iff.rfl⟩
  | .bool _, _, _, h => by cases h; exact ⟨trivial, Iff.rfl⟩
  | .int _, _, _, h => by cases h; exact ⟨trivial, Iff.rfl⟩
  | .float _, _, hw, h => by cases h; exact ⟨hw, Iff.rfl⟩
  | .nonFinite, _, _, h => by cases h
  | .str s, _, _, h => by cases h; exact ⟨trivial, iff_true_intro (nfc.idem s)⟩
  | .enum value, _, hw, h => by
      have hvalue : value.WellFormed := hw
      exact @project_normal value _ hvalue h
  | .decimal text, _, hw, h => by
      cases h
      have htagged := @tagged_ascii nfc "$decimal" _ (nfc.ascii _ (by decide)) hw
      rw [String.ofList_toList] at htagged
      exact htagged
  | .datetime value, j, _, h => by
      rw [project] at h
      split at h
      · cases h
      · split at h
        · cases h
        · cases h
          exact tagged_ascii (nfc.ascii _ (by decide)) (ascii_isoformatUtc _ _)
  | .date value, _, _, h => by
      cases h
      exact tagged_ascii (nfc.ascii _ (by decide)) (ascii_isoformatDate value)
  | .path posix, _, _, h => by
      cases h
      have htag : nfc.normalize "$path" = "$path" := nfc.ascii _ (by decide)
      exact ⟨tagged_projected htag, tagged_canonical_iff htag⟩
  | .bytes octets, _, _, h => by
      cases h
      exact tagged_ascii (nfc.ascii _ (by decide)) (ascii_base64 octets)
  | .list items, _, hw, h => by
      have hitems : wellFormedList items := hw
      rw [project, Except.bind_eq_ok] at h
      obtain ⟨js, hjs, h⟩ := h
      cases h
      exact projectList_normal hitems hjs
  | .set items, _, hw, h => by
      have hitems : wellFormedList items := hw
      rw [project, Except.bind_eq_ok] at h
      obtain ⟨js, hjs, h⟩ := h
      cases h
      obtain ⟨hprojected, hnormal⟩ := projectList_normal hitems hjs
      have hmem : ∀ j, j ∈ sortByBytes nfc js ↔ j ∈ js := fun j => List.mem_insertionSort _
      refine ⟨Json.projectedList_iff.mpr fun j hj => ?_, Iff.trans ?_ hnormal⟩
      · exact Json.projectedList_iff.mp hprojected j ((hmem j).1 hj)
      · show Json.CanonicalList nfc (sortByBytes nfc js) ↔ Json.CanonicalList nfc js
        rw [Json.canonicalList_iff, Json.canonicalList_iff]
        exact forall_congr' fun j => by rw [hmem j]
  | .dict items, _, hw, h => by
      have hitems : wellFormedItems items := hw
      rw [project, Except.bind_eq_ok] at h
      obtain ⟨ms, hms, h⟩ := h
      cases h
      obtain ⟨hnodup, hprojected, hnormal⟩ := projectItems_normal hitems objectSoFar_nil hms
      exact ⟨⟨hnodup, hprojected⟩, ⟨fun hc => (hnormal.1 hc.2).2,
        fun hpaths => ⟨hnodup, hnormal.2 ⟨trivial, hpaths⟩⟩⟩⟩
  | .model fields, _, hw, h => by
      have hfields : wellFormedFields fields := hw
      rw [project, Except.bind_eq_ok] at h
      obtain ⟨ms, hms, h⟩ := h
      cases h
      obtain ⟨hnodup, hprojected, hnormal⟩ := projectFields_normal hfields objectSoFar_nil hms
      exact ⟨⟨hnodup, hprojected⟩, ⟨fun hc => (hnormal.1 hc.2).2,
        fun hpaths => ⟨hnodup, hnormal.2 ⟨trivial, hpaths⟩⟩⟩⟩
  | .other _, _, _, h => by cases h

theorem projectList_normal : ∀ {vs : List PyValue} {js : List Json}, wellFormedList vs →
    projectList nfc vs = .ok js →
    Json.ProjectedList nfc js ∧ (Json.CanonicalList nfc js ↔ pathsNormalList nfc vs)
  | [], _, _, h => by cases h; exact ⟨trivial, Iff.rfl⟩
  | v :: vs, _, hw, h => by
      obtain ⟨hv, hvs⟩ : v.WellFormed ∧ wellFormedList vs := hw
      simp only [projectList, Except.bind_eq_ok] at h
      obtain ⟨j, hj, js, hjs, h⟩ := h
      cases h
      obtain ⟨hprojected, hnormal⟩ := project_normal hv hj
      obtain ⟨hprojecteds, hnormals⟩ := projectList_normal hvs hjs
      exact ⟨⟨hprojected, hprojecteds⟩, and_congr hnormal hnormals⟩

theorem projectItems_normal : ∀ {items : List (PyValue × PyValue)} {normal : Prop}
    {projected members : List (String × Json)}, wellFormedItems items →
    ObjectSoFar nfc normal projected → projectItems nfc projected items = .ok members →
    ObjectSoFar nfc (normal ∧ pathsNormalItems nfc items) members
  | [], _, _, _, _, hp, h => by
      cases h
      rw [pathsNormalItems, and_true]
      exact hp
  | (key, value) :: rest, _, _, _, hw, hp, h => by
      obtain ⟨hvalue, hrest⟩ : value.WellFormed ∧ wellFormedItems rest := hw
      simp only [projectItems] at h
      cases hk : keyText key with
      | none =>
        rw [hk] at h
        cases h
      | some k =>
        simp only [hk, Except.bind_eq_ok] at h
        obtain ⟨item, hitem, projected', hadd, h⟩ := h
        obtain ⟨hprojected, hnormal⟩ := project_normal hvalue hitem
        rw [pathsNormalItems, ← and_assoc]
        exact projectItems_normal hrest (hp.addMember hprojected hnormal hadd) h

theorem projectFields_normal : ∀ {fields : List (String × PyValue)} {normal : Prop}
    {projected members : List (String × Json)}, wellFormedFields fields →
    ObjectSoFar nfc normal projected → projectFields nfc projected fields = .ok members →
    ObjectSoFar nfc (normal ∧ pathsNormalFields nfc fields) members
  | [], _, _, _, _, hp, h => by
      cases h
      rw [pathsNormalFields, and_true]
      exact hp
  | (key, value) :: rest, _, _, _, hw, hp, h => by
      obtain ⟨hvalue, hrest⟩ : value.WellFormed ∧ wellFormedFields rest := hw
      simp only [projectFields, Except.bind_eq_ok] at h
      obtain ⟨item, hitem, projected', hadd, h⟩ := h
      obtain ⟨hprojected, hnormal⟩ := project_normal hvalue hitem
      rw [pathsNormalFields, ← and_assoc]
      exact projectFields_normal hrest (hp.addMember hprojected hnormal hadd) h

end

/-! ## The bytes of what is read -/

/-- **Canonical text re-verifies just when the paths are normalised.** Reading gives a document, and
its bytes are the bytes read. -/
theorem canonicalJsonBytes_reread_iff {v : PyValue} {text : List Char} (hw : v.WellFormed)
    (h : canonicalJsonBytes nfc v = .ok (utf8 text)) :
    ∃ j, Json.loads text = some j ∧
      (canonicalJsonBytes nfc j.toPy = .ok (utf8 text) ↔ v.PathsNormal nfc) := by
  rw [canonicalJsonBytes, Except.bind_eq_ok] at h
  obtain ⟨j, hj, htext⟩ := h
  obtain ⟨hprojected, hnormal⟩ := project_normal hw hj
  have hsorted := hprojected.sortKeys
  obtain rfl : j.dumps = text := utf8_injective (Except.ok.inj htext)
  refine ⟨j.sortKeys, Json.loads_render hsorted.printable, ?_⟩
  have hdumps : (j.sortKeys.renormalize nfc).dumps = (j.sortKeys.renormalize nfc).render := by
    rw [Json.dumps, Json.sortKeys_renormalize, Json.sortKeys_idem]
  rw [canonicalJsonBytes, project_toPy_eq hsorted, ← hnormal]
  show Except.ok (utf8 (j.sortKeys.renormalize nfc).dumps) = Except.ok (utf8 j.dumps) ↔ _
  constructor
  · intro heq
    have hrender := utf8_injective (Except.ok.inj heq)
    rw [hdumps] at hrender
    have hfix := Json.render_injective hsorted.printable.renormalize hsorted.printable hrender
    exact Json.canonical_of_sortKeys ((Json.canonical_iff_renormalize hsorted).2 hfix)
  · intro hcanon
    rw [hdumps, (Json.canonical_iff_renormalize hsorted).1 (Json.canonical_sortKeys hcanon)]
    rfl

end AtlasDb.Core
