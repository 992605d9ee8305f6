import Mathlib.Data.String.Basic
import AtlasDb.Core.Sha256
import AtlasDb.Core.Timestamp
import Mathlib.Data.List.Sort

/-!
# Canonical JSON and its digests

`core/canonical_json.py`. A Python value is first *projected* to plain JSON (`_project`: tags for
decimals, dates, paths and bytes; NFC for strings and keys; sets sorted by their bytes), then
printed by `json.dumps(..., sort_keys=True, separators=(",", ":"), ensure_ascii=False)`, and the
digest is the SHA-256 of the UTF-8 bytes.

Strings are normalised by `unicodedata`, whose tables are not part of this development: `Nfc` is any
normaliser with the two laws the store relies on.
-/

namespace AtlasDb.Core

open Timestamp (Date Clock DateTime toUtc isoformatUtc pad)

/-- `unicodedata.normalize("NFC", ·)`: idempotent, and the identity on ASCII text. -/
structure Nfc where
  normalize : String → String
  idem : ∀ s, normalize (normalize s) = normalize s
  ascii : ∀ s, (s.toList.all fun c => decide (c.toNat < 128)) = true → normalize s = s

/-- Text that is normalised as it stands, as that of ASCII is. -/
def asciiNfc : Nfc := ⟨fun s => s, fun _ => rfl, fun _ _ => rfl⟩

/-- A JSON document; an object keeps the insertion order of its members. A finite float is kept as
the text `json` prints for it. -/
inductive Json where
  | null
  | bool (b : Bool)
  | int (i : Int)
  | float (repr : String)
  | str (s : String)
  | arr (items : List Json)
  | obj (members : List (String × Json))

/-- The Python values `_project` distinguishes. A set lists its items in iteration order; a Pydantic
model is the dump of its fields. -/
inductive PyValue where
  | none
  | bool (b : Bool)
  | int (i : Int)
  | float (repr : String)
  | nonFinite
  | str (s : String)
  | enum (value : PyValue)
  | decimal (text : String)
  | datetime (value : DateTime)
  | date (value : Date)
  | path (posix : String)
  | bytes (octets : List UInt8)
  | list (items : List PyValue)
  | set (items : List PyValue)
  | dict (items : List (PyValue × PyValue))
  | model (fields : List (String × PyValue))
  | other (qualname : String)

inductive CanonicalJsonError where
  | naiveDatetime
  | datetimeOverflow
  | nonFiniteFloat
  | keyNotString
  | duplicateKey (key : String)
  | unsupportedType (qualname : String)
deriving DecidableEq

/-! ## Printing -/

/-- UTF-8. -/
def utf8Char (c : Char) : List Nat :=
  let n := c.toNat
  if n < 0x80 then [n]
  else if n < 0x800 then [0xC0 + n / 64, 0x80 + n % 64]
  else if n < 0x10000 then [0xE0 + n / 4096, 0x80 + n / 64 % 64, 0x80 + n % 64]
  else [0xF0 + n / 262144, 0x80 + n / 4096 % 64, 0x80 + n / 64 % 64, 0x80 + n % 64]

def utf8 (text : List Char) : List Nat := text.flatMap utf8Char

namespace Json

def keyLe (a b : String × Json) : Prop := a.1 ≤ b.1

instance : DecidableRel keyLe := fun a b => inferInstanceAs (Decidable (a.1 ≤ b.1))

/-! `sort_keys=True`, at every level. -/

mutual

def sortKeys : Json → Json
  | arr items => arr (sortKeysList items)
  | obj members => obj ((sortKeysMembers members).insertionSort keyLe)
  | j => j

def sortKeysList : List Json → List Json
  | [] => []
  | j :: js => sortKeys j :: sortKeysList js

def sortKeysMembers : List (String × Json) → List (String × Json)
  | [] => []
  | (k, j) :: ms => (k, sortKeys j) :: sortKeysMembers ms

end

def hexDigit (n : Nat) : Char := if n < 10 then Char.ofNat (48 + n) else Char.ofNat (87 + n)

/-- The escapes of `json` under `ensure_ascii=False`. -/
def escapeChar (c : Char) : List Char :=
  if c = '"' then ['\\', '"']
  else if c = '\\' then ['\\', '\\']
  else if c = '\n' then ['\\', 'n']
  else if c = '\r' then ['\\', 'r']
  else if c = '\t' then ['\\', 't']
  else if c.toNat = 12 then ['\\', 'f']
  else if c.toNat = 8 then ['\\', 'b']
  else if c.toNat < 32 then ['\\', 'u', '0', '0', hexDigit (c.toNat / 16), hexDigit (c.toNat % 16)]
  else [c]

def quote (s : String) : List Char := '"' :: (s.toList.flatMap escapeChar ++ ['"'])

mutual

def render : Json → List Char
  | null => ['n', 'u', 'l', 'l']
  | bool true => ['t', 'r', 'u', 'e']
  | bool false => ['f', 'a', 'l', 's', 'e']
  | int i => (toString i).toList
  | float repr => repr.toList
  | str s => quote s
  | arr items => '[' :: (renderList items ++ [']'])
  | obj members => '\x7b' :: (renderMembers members ++ ['\x7d'])

def renderList : List Json → List Char
  | [] => []
  | [j] => render j
  | j :: js => render j ++ ',' :: renderList js

def renderMembers : List (String × Json) → List Char
  | [] => []
  | [(k, j)] => quote k ++ ':' :: render j
  | (k, j) :: ms => quote k ++ ':' :: (render j ++ ',' :: renderMembers ms)

end

/-- `json.dumps` with the options of `canonical_json_bytes`. -/
def dumps (j : Json) : List Char := render (sortKeys j)

/-! The value `json.loads` returns. -/

mutual

def toPy : Json → PyValue
  | null => .none
  | bool b => .bool b
  | int i => .int i
  | float repr => .float repr
  | str s => .str s
  | arr items => .list (toPyList items)
  | obj members => .dict (toPyMembers members)

def toPyList : List Json → List PyValue
  | [] => []
  | j :: js => toPy j :: toPyList js

def toPyMembers : List (String × Json) → List (PyValue × PyValue)
  | [] => []
  | (k, j) :: ms => (.str k, toPy j) :: toPyMembers ms

end

variable (nfc : Nfc)

mutual

/-- The strings of a document normalised. -/
def renormalize : Json → Json
  | str s => str (nfc.normalize s)
  | arr items => arr (renormalizeList items)
  | obj members => obj (renormalizeMembers members)
  | j => j

def renormalizeList : List Json → List Json
  | [] => []
  | j :: js => renormalize j :: renormalizeList js

def renormalizeMembers : List (String × Json) → List (String × Json)
  | [] => []
  | (k, j) :: ms => (k, renormalize j) :: renormalizeMembers ms

end

/-- The canonical bytes of a projected item: it is projected again, which normalises its strings,
the texts under tags among them (`sortKey_eq`). -/
def sortKey (j : Json) : List Nat := utf8 (j.renormalize nfc).dumps

end Json

/-! ## Projection -/

def base64Char (n : Nat) : Char :=
  "ABCDEFGHIJKLMNOPQRSTUVWXYZabcdefghijklmnopqrstuvwxyz0123456789+/".toList.getD n '='

/-- `base64.b64encode`. -/
def base64 : List UInt8 → List Char
  | [] => []
  | [a] =>
    let n := a.toNat * 65536
    [base64Char (n / 262144), base64Char (n / 4096 % 64), '=', '=']
  | [a, b] =>
    let n := a.toNat * 65536 + b.toNat * 256
    [base64Char (n / 262144), base64Char (n / 4096 % 64), base64Char (n / 64 % 64), '=']
  | a :: b :: c :: rest =>
    let n := a.toNat * 65536 + b.toNat * 256 + c.toNat
    base64Char (n / 262144) :: base64Char (n / 4096 % 64) :: base64Char (n / 64 % 64) ::
      base64Char (n % 64) :: base64 rest

def isoformatDate (d : Date) : List Char :=
  pad 4 d.year ++ '-' :: pad 2 d.month ++ '-' :: pad 2 d.day

/-- A one-member object such as `{"$decimal": ...}`. -/
def tagged (tag text : String) : Json := .obj [(tag, .str text)]

/-- The key of a dictionary entry, when it is a string (a string enumeration is one). -/
def keyText : PyValue → Option String
  | .str s => some s
  | .enum (.str s) => some s
  | _ => Option.none

/-- `sorted(items, key=canonical_json_bytes)`: items with one key keep their order. -/
def sortByBytes (nfc : Nfc) (items : List Json) : List Json :=
  items.insertionSort fun a b => a.sortKey nfc ≤ b.sortKey nfc

/-- Add one member to the object under construction. -/
def addMember (nfc : Nfc) (projected : List (String × Json)) (key : String) (item : Json) :
    Except CanonicalJsonError (List (String × Json)) :=
  if nfc.normalize key ∈ projected.map Prod.fst then .error (.duplicateKey key)
  else .ok (projected ++ [(nfc.normalize key, item)])

mutual

/-- `_project`. -/
def project (nfc : Nfc) : PyValue → Except CanonicalJsonError Json
  | .none => .ok .null
  | .bool b => .ok (.bool b)
  | .int i => .ok (.int i)
  | .float repr => .ok (.float repr)
  | .nonFinite => .error .nonFiniteFloat
  | .str s => .ok (.str (nfc.normalize s))
  | .enum value => project nfc value
  | .decimal text => .ok (tagged "$decimal" text)
  | .datetime value =>
    match value.offset with
    | Option.none => .error .naiveDatetime
    | some offset =>
      match toUtc value.date value.clock offset with
      | Option.none => .error .datetimeOverflow
      | some utc => .ok (tagged "$datetime" (String.ofList (isoformatUtc utc.1 utc.2)))
  | .date value => .ok (tagged "$date" (String.ofList (isoformatDate value)))
  | .path posix => .ok (tagged "$path" posix)
  | .bytes octets => .ok (tagged "$bytes" (String.ofList (base64 octets)))
  | .list items => do
      let projected ← projectList nfc items
      .ok (.arr projected)
  | .set items => do
      let projected ← projectList nfc items
      .ok (.arr (sortByBytes nfc projected))
  | .dict items => do
      let members ← projectItems nfc [] items
      .ok (.obj members)
  | .model fields => do
      let members ← projectFields nfc [] fields
      .ok (.obj members)
  | .other qualname => .error (.unsupportedType qualname)

def projectList (nfc : Nfc) : List PyValue → Except CanonicalJsonError (List Json)
  | [] => .ok []
  | v :: vs => do
      let j ← project nfc v
      let js ← projectList nfc vs
      .ok (j :: js)

/-- The loop over the entries of a dictionary, with the object built so far. -/
def projectItems (nfc : Nfc) (projected : List (String × Json)) :
    List (PyValue × PyValue) → Except CanonicalJsonError (List (String × Json))
  | [] => .ok projected
  | (key, value) :: rest =>
    match keyText key with
    | Option.none => .error .keyNotString
    | some k => do
        let item ← project nfc value
        let projected ← addMember nfc projected k item
        projectItems nfc projected rest

def projectFields (nfc : Nfc) (projected : List (String × Json)) :
    List (String × PyValue) → Except CanonicalJsonError (List (String × Json))
  | [] => .ok projected
  | (key, value) :: rest => do
      let item ← project nfc value
      let projected ← addMember nfc projected key item
      projectFields nfc projected rest

end

def canonicalJsonBytes (nfc : Nfc) (value : PyValue) : Except CanonicalJsonError (List Nat) := do
  let projected ← project nfc value
  .ok (utf8 projected.dumps)

/-- `"sha256:" + sha256(...).hexdigest()`. -/
def sha256Digest (octets : List Nat) : String :=
  "sha256:" ++ String.ofList (Sha256.hexdigest octets)

def canonicalDigest (nfc : Nfc) (value : PyValue) : Except CanonicalJsonError String := do
  let octets ← canonicalJsonBytes nfc value
  .ok (sha256Digest octets)

/-- A dictionary literal with string keys. -/
def PyValue.record (fields : List (String × PyValue)) : PyValue :=
  .dict (fields.map fun field => (.str field.1, field.2))

/-! ## Canonical documents -/

namespace Json

variable (nfc : Nfc)

mutual

/-- A document `_project` can return: strings and keys normalised, no key twice. -/
def Canonical : Json → Prop
  | str s => nfc.normalize s = s
  | arr items => CanonicalList items
  | obj members => (members.map Prod.fst).Nodup ∧ CanonicalMembers members
  | _ => True

def CanonicalList : List Json → Prop
  | [] => True
  | j :: js => Canonical j ∧ CanonicalList js

def CanonicalMembers : List (String × Json) → Prop
  | [] => True
  | (k, j) :: ms => (nfc.normalize k = k ∧ Canonical j) ∧ CanonicalMembers ms

end

variable {nfc}

theorem canonicalList_iff {js : List Json} : CanonicalList nfc js ↔ ∀ j ∈ js, Canonical nfc j := by
  induction js with
  | nil => simp [CanonicalList]
  | cons j js ih => simp [CanonicalList, ih]

theorem canonicalMembers_iff {ms : List (String × Json)} :
    CanonicalMembers nfc ms ↔ ∀ m ∈ ms, nfc.normalize m.1 = m.1 ∧ Canonical nfc m.2 := by
  induction ms with
  | nil => simp [CanonicalMembers]
  | cons m ms ih =>
    obtain ⟨k, j⟩ := m
    simp [CanonicalMembers, ih]

end Json

variable {nfc : Nfc}

theorem addMember_fresh {projected : List (String × Json)} {key : String}
    {item : Json} (hkey : nfc.normalize key = key) (hfresh : key ∉ projected.map Prod.fst) :
    addMember nfc projected key item = .ok (projected ++ [(key, item)]) := by
  rw [addMember, hkey, if_neg hfresh]

/-! ### Projecting a document that was read back changes nothing -/

mutual

theorem project_toPy : ∀ {j : Json}, j.Canonical nfc → project nfc j.toPy = .ok j
  | .null, _ => rfl
  | .bool _, _ => rfl
  | .int _, _ => rfl
  | .float _, _ => rfl
  | .str s, h => by
      have h' : nfc.normalize s = s := h
      simp [Json.toPy, project, h']
  | .arr items, h => by
      have h' : Json.CanonicalList nfc items := h
      simp [Json.toPy, project, projectList_toPyList h', bind, Except.bind]
  | .obj members, h => by
      have h' : (members.map Prod.fst).Nodup ∧ Json.CanonicalMembers nfc members := h
      have hitems := projectItems_toPyMembers members [] h'.2 (by simpa using h'.1)
      simp [Json.toPy, project, hitems, bind, Except.bind]

theorem projectList_toPyList :
    ∀ {js : List Json}, Json.CanonicalList nfc js → projectList nfc (Json.toPyList js) = .ok js
  | [], _ => rfl
  | j :: js, h => by
      simp [Json.toPyList, projectList, project_toPy h.1, projectList_toPyList h.2, bind,
        Except.bind]

theorem projectItems_toPyMembers :
    ∀ (ms projected : List (String × Json)), Json.CanonicalMembers nfc ms →
      ((projected ++ ms).map Prod.fst).Nodup →
      projectItems nfc projected (Json.toPyMembers ms) = .ok (projected ++ ms)
  | [], projected, _, _ => by simp [Json.toPyMembers, projectItems]
  | (k, j) :: ms, projected, h, hnodup => by
      have hfresh : k ∉ projected.map Prod.fst := by
        simp only [List.map_append, List.map_cons] at hnodup
        exact fun hk => List.disjoint_of_nodup_append hnodup hk List.mem_cons_self
      have hrest := projectItems_toPyMembers ms (projected ++ [(k, j)]) h.2
        (by simpa using hnodup)
      simp [Json.toPyMembers, projectItems, keyText, project_toPy h.1.2,
        addMember_fresh h.1.1 hfresh, hrest, bind, Except.bind]

end

/-! ### Sorting the keys -/

namespace Json

instance : Std.Total keyLe := ⟨fun a b => le_total a.1 b.1⟩

instance : IsTrans (String × Json) keyLe := ⟨fun _ _ _ h h' => le_trans h h'⟩

theorem sortKeysMembers_eq_map (ms : List (String × Json)) :
    sortKeysMembers ms = ms.map fun m => (m.1, m.2.sortKeys) := by
  induction ms with
  | nil => rfl
  | cons m ms ih =>
    obtain ⟨k, j⟩ := m
    simp [sortKeysMembers, ih]

mutual

theorem sortKeys_idem : ∀ j : Json, j.sortKeys.sortKeys = j.sortKeys
  | .null => rfl
  | .bool _ => rfl
  | .int _ => rfl
  | .float _ => rfl
  | .str _ => rfl
  | .arr items => by simp [sortKeys, sortKeysList_idem items]
  | .obj members => by
      have hfix : ∀ m ∈ (sortKeysMembers members).insertionSort keyLe,
          (m.1, m.2.sortKeys) = m := by
        intro m hm
        rw [List.mem_insertionSort] at hm
        exact sortKeysMembers_fixed members m hm
      have hmap : sortKeysMembers ((sortKeysMembers members).insertionSort keyLe)
          = (sortKeysMembers members).insertionSort keyLe := by
        rw [sortKeysMembers_eq_map, List.map_congr_left hfix, List.map_id']
      simp only [sortKeys]
      rw [hmap, List.Pairwise.insertionSort_eq (List.pairwise_insertionSort keyLe _)]

theorem sortKeysList_idem : ∀ js : List Json,
    sortKeysList (sortKeysList js) = sortKeysList js
  | [] => rfl
  | j :: js => by simp [sortKeysList, sortKeys_idem j, sortKeysList_idem js]

theorem sortKeysMembers_fixed : ∀ (ms : List (String × Json)) (m : String × Json),
    m ∈ sortKeysMembers ms → (m.1, m.2.sortKeys) = m
  | [], m, h => by simp [sortKeysMembers] at h
  | (k, j) :: ms, m, h => by
      rcases List.mem_cons.mp h with rfl | h
      · simp [sortKeys_idem j]
      · exact sortKeysMembers_fixed ms m h

end

mutual

theorem canonical_sortKeys : ∀ {j : Json}, j.Canonical nfc → j.sortKeys.Canonical nfc
  | .null, _ => trivial
  | .bool _, _ => trivial
  | .int _, _ => trivial
  | .float _, _ => trivial
  | .str _, h => h
  | .arr items, h => by
      have h' : CanonicalList nfc items := h
      exact canonicalList_sortKeys h'
  | .obj members, h => by
      have hperm := List.perm_insertionSort keyLe (sortKeysMembers members)
      have hkeys : (sortKeysMembers members).map Prod.fst = members.map Prod.fst := by
        rw [sortKeysMembers_eq_map, List.map_map]
        rfl
      refine ⟨?_, ?_⟩
      · rw [(hperm.map Prod.fst).nodup_iff, hkeys]
        exact h.1
      · rw [canonicalMembers_iff]
        intro m hm
        exact canonicalMembers_iff.mp (canonicalMembers_sortKeys h.2) m (hperm.mem_iff.mp hm)

theorem canonicalList_sortKeys :
    ∀ {js : List Json}, CanonicalList nfc js → CanonicalList nfc (sortKeysList js)
  | [], _ => trivial
  | _ :: _, h => ⟨canonical_sortKeys h.1, canonicalList_sortKeys h.2⟩

theorem canonicalMembers_sortKeys :
    ∀ {ms : List (String × Json)}, CanonicalMembers nfc ms →
    CanonicalMembers nfc (sortKeysMembers ms)
  | [], _ => trivial
  | (_, _) :: _, h => ⟨⟨h.1.1, canonical_sortKeys h.1.2⟩, canonicalMembers_sortKeys h.2⟩

end

end Json

/-! ### What is projected is canonical -/

mutual

/-- Values without tagged scalars. The text under a tag is not normalised, so a tagged path may
change when it is read back; the artifacts of the store hold none. -/
def PyValue.plain : PyValue → Bool
  | .decimal _ | .datetime _ | .date _ | .path _ | .bytes _ => false
  | .enum value => value.plain
  | .list items => plainList items
  | .set items => plainList items
  | .dict items => plainItems items
  | .model fields => plainFields fields
  | _ => true

def plainList : List PyValue → Bool
  | [] => true
  | v :: vs => v.plain && plainList vs

def plainItems : List (PyValue × PyValue) → Bool
  | [] => true
  | (_, v) :: rest => v.plain && plainItems rest

def plainFields : List (String × PyValue) → Bool
  | [] => true
  | (_, v) :: rest => v.plain && plainFields rest

end

/-- The object under construction is canonical so far. -/
def CanonicalObject (nfc : Nfc) (members : List (String × Json)) : Prop :=
  (members.map Prod.fst).Nodup ∧ Json.CanonicalMembers nfc members

theorem canonicalObject_nil : CanonicalObject nfc [] := ⟨List.nodup_nil, trivial⟩

theorem canonicalObject_addMember {projected members : List (String × Json)}
    {key : String} {item : Json} (h : addMember nfc projected key item = .ok members)
    (hp : CanonicalObject nfc projected) (hitem : item.Canonical nfc) :
    CanonicalObject nfc members := by
  unfold addMember at h
  split at h
  · cases h
  · next hfresh =>
      cases h
      refine ⟨?_, ?_⟩
      · rw [List.map_append, List.nodup_append]
        refine ⟨hp.1, by simp, ?_⟩
        intro k hk k' hk' heq
        obtain rfl : k' = nfc.normalize key := by simpa using hk'
        exact hfresh (heq ▸ hk)
      · rw [Json.canonicalMembers_iff]
        intro m hm
        rcases List.mem_append.mp hm with hm | hm
        · exact Json.canonicalMembers_iff.mp hp.2 m hm
        · obtain rfl : m = (nfc.normalize key, item) := by simpa using hm
          exact ⟨nfc.idem key, hitem⟩

theorem Except.bind_eq_ok {ε α β : Type} {x : Except ε α} {f : α → Except ε β} {b : β} :
    (x >>= f) = .ok b ↔ ∃ a, x = .ok a ∧ f a = .ok b := by
  cases x with
  | error e => simp [bind, Except.bind]
  | ok a => simp [bind, Except.bind]

mutual

/-- A projected value is canonical. -/
theorem canonical_project : ∀ {v : PyValue} {j : Json}, v.plain = true →
    project nfc v = .ok j → j.Canonical nfc
  | .none, _, _, h => by cases h; trivial
  | .bool _, _, _, h => by cases h; trivial
  | .int _, _, _, h => by cases h; trivial
  | .float _, _, _, h => by cases h; trivial
  | .nonFinite, _, _, h => by cases h
  | .str s, _, _, h => by
      cases h
      exact nfc.idem s
  | .enum value, _, hp, h => by
      have hp' : value.plain = true := by simpa [PyValue.plain] using hp
      exact canonical_project hp' h
  | .list items, j, hp, h => by
      simp only [project, Except.bind_eq_ok] at h
      obtain ⟨js, hjs, h⟩ := h
      cases h
      exact canonical_projectList (by simpa [PyValue.plain] using hp) hjs
  | .set items, j, hp, h => by
      simp only [project, Except.bind_eq_ok] at h
      obtain ⟨js, hjs, h⟩ := h
      cases h
      have hcanon := canonical_projectList (by simpa [PyValue.plain] using hp) hjs
      refine Json.canonicalList_iff.mpr fun j hj => ?_
      exact Json.canonicalList_iff.mp hcanon j ((List.mem_insertionSort _).mp hj)
  | .dict items, j, hp, h => by
      simp only [project, Except.bind_eq_ok] at h
      obtain ⟨ms, hms, h⟩ := h
      cases h
      exact canonical_projectItems (by simpa [PyValue.plain] using hp)
        canonicalObject_nil hms
  | .model fields, j, hp, h => by
      simp only [project, Except.bind_eq_ok] at h
      obtain ⟨ms, hms, h⟩ := h
      cases h
      exact canonical_projectFields (by simpa [PyValue.plain] using hp)
        canonicalObject_nil hms
  | .other _, _, _, h => by cases h

theorem canonical_projectList : ∀ {vs : List PyValue} {js : List Json},
    plainList vs = true → projectList nfc vs = .ok js → Json.CanonicalList nfc js
  | [], _, _, h => by cases h; trivial
  | v :: vs, _, hp, h => by
      simp only [projectList, Except.bind_eq_ok] at h
      obtain ⟨j, hj, js, hjs, h⟩ := h
      cases h
      simp only [plainList, Bool.and_eq_true] at hp
      exact ⟨canonical_project hp.1 hj, canonical_projectList hp.2 hjs⟩

theorem canonical_projectItems : ∀ {items : List (PyValue × PyValue)}
    {projected members : List (String × Json)}, plainItems items = true →
    CanonicalObject nfc projected → projectItems nfc projected items = .ok members →
    CanonicalObject nfc members
  | [], _, _, _, hc, h => by
      cases h
      exact hc
  | (key, value) :: rest, _, _, hp, hc, h => by
      simp only [projectItems] at h
      simp only [plainItems, Bool.and_eq_true] at hp
      cases hk : keyText key with
      | none => simp [hk] at h
      | some k =>
        simp only [hk, Except.bind_eq_ok] at h
        obtain ⟨item, hitem, projected', hadd, h⟩ := h
        have hc' := canonicalObject_addMember hadd hc (canonical_project hp.1 hitem)
        exact canonical_projectItems hp.2 hc' h

theorem canonical_projectFields : ∀ {fields : List (String × PyValue)}
    {projected members : List (String × Json)}, plainFields fields = true →
    CanonicalObject nfc projected → projectFields nfc projected fields = .ok members →
    CanonicalObject nfc members
  | [], _, _, _, hc, h => by
      cases h
      exact hc
  | (key, value) :: rest, _, _, hp, hc, h => by
      simp only [projectFields, Except.bind_eq_ok] at h
      simp only [plainFields, Bool.and_eq_true] at hp
      obtain ⟨item, hitem, projected', hadd, h⟩ := h
      have hc' := canonicalObject_addMember hadd hc (canonical_project hp.1 hitem)
      exact canonical_projectFields hp.2 hc' h

end

variable {nfc : Nfc}

/-- **Stored payloads re-verify**: the digest of a value without tagged scalars is the digest of the
document read back from its canonical text. -/
theorem canonicalDigest_readBack {v : PyValue} {j : Json} (hp : v.plain = true)
    (h : project nfc v = .ok j) :
    canonicalDigest nfc j.sortKeys.toPy = canonicalDigest nfc v := by
  have hcanon := Json.canonical_sortKeys (canonical_project hp h)
  simp only [canonicalDigest, canonicalJsonBytes, project_toPy hcanon, h, Json.dumps, bind,
    Except.bind, Json.sortKeys_idem]

/-! ### Values that have a canonical form -/

/-- `v` is accepted by `_project`. -/
def Projects (nfc : Nfc) (v : PyValue) : Prop := ∃ j, project nfc v = .ok j

theorem Projects.canonicalDigest {v : PyValue} (h : Projects nfc v) :
    ∃ digest, canonicalDigest nfc v = .ok digest := by
  obtain ⟨j, hj⟩ := h
  exact ⟨_, by rw [Core.canonicalDigest, canonicalJsonBytes, hj]; rfl⟩

@[simp] theorem projects_str (s : String) : Projects nfc (.str s) := ⟨_, rfl⟩
@[simp] theorem projects_none : Projects nfc .none := ⟨_, rfl⟩
@[simp] theorem projects_bool (b : Bool) : Projects nfc (.bool b) := ⟨_, rfl⟩
@[simp] theorem projects_int (i : Int) : Projects nfc (.int i) := ⟨_, rfl⟩

theorem projects_list {vs : List PyValue} (h : ∀ v ∈ vs, Projects nfc v) :
    Projects nfc (.list vs) := by
  have hlist : ∃ js, projectList nfc vs = .ok js := by
    induction vs with
    | nil => exact ⟨[], rfl⟩
    | cons v vs ih =>
      obtain ⟨j, hj⟩ := h v List.mem_cons_self
      obtain ⟨js, hjs⟩ := ih fun v hv => h v (List.mem_cons_of_mem _ hv)
      exact ⟨j :: js, by simp [projectList, hj, hjs, bind, Except.bind]⟩
  obtain ⟨js, hjs⟩ := hlist
  exact ⟨.arr js, by simp [project, hjs, bind, Except.bind]⟩

/-- Field names are ASCII, so normalising them changes nothing and merges none. -/
def asciiName (s : String) : Bool := s.toList.all fun c => decide (c.toNat < 128)

theorem projectFields_ok (fields : List (String × PyValue)) (projected : List (String × Json))
    (hname : ∀ f ∈ fields, asciiName f.1 = true)
    (hnodup : (projected.map Prod.fst ++ fields.map Prod.fst).Nodup)
    (hvalue : ∀ f ∈ fields, Projects nfc f.2) :
    ∃ members, projectFields nfc projected fields = .ok members := by
  induction fields generalizing projected with
  | nil => exact ⟨projected, rfl⟩
  | cons f fields ih =>
    obtain ⟨key, value⟩ := f
    obtain ⟨item, hitem⟩ := hvalue _ List.mem_cons_self
    have hkey : nfc.normalize key = key := nfc.ascii key (hname _ List.mem_cons_self)
    have hfresh : key ∉ projected.map Prod.fst := fun hk =>
      List.disjoint_of_nodup_append hnodup hk List.mem_cons_self
    obtain ⟨members, hm⟩ := ih (projected ++ [(key, item)])
      (fun f hf => hname f (List.mem_cons_of_mem _ hf)) (by simpa using hnodup)
      (fun f hf => hvalue f (List.mem_cons_of_mem _ hf))
    refine ⟨members, ?_⟩
    simp only [projectFields, hitem, bind, Except.bind, addMember_fresh hkey hfresh, hm]

theorem projects_model {fields : List (String × PyValue)}
    (hname : (fields.map Prod.fst).all asciiName = true) (hnodup : (fields.map Prod.fst).Nodup)
    (hvalue : ∀ f ∈ fields, Projects nfc f.2) : Projects nfc (.model fields) := by
  obtain ⟨members, hm⟩ := projectFields_ok fields [] (by simpa using hname)
    (by simpa using hnodup) hvalue
  exact ⟨.obj members, by simp [project, hm, bind, Except.bind]⟩

theorem projectItems_record (fields : List (String × PyValue)) (projected : List (String × Json)) :
    projectItems nfc projected (fields.map fun field => (.str field.1, field.2))
      = projectFields nfc projected fields := by
  induction fields generalizing projected with
  | nil => rfl
  | cons field fields ih =>
    obtain ⟨key, value⟩ := field
    simp only [List.map_cons, projectItems, projectFields, keyText]
    cases project nfc value with
    | error e => rfl
    | ok item =>
      simp only [bind, Except.bind]
      cases addMember nfc projected key item with
      | error e => rfl
      | ok projected => exact ih projected

theorem projects_record {fields : List (String × PyValue)}
    (hname : (fields.map Prod.fst).all asciiName = true) (hnodup : (fields.map Prod.fst).Nodup)
    (hvalue : ∀ f ∈ fields, Projects nfc f.2) : Projects nfc (.record fields) := by
  obtain ⟨members, hm⟩ := projectFields_ok fields [] (by simpa using hname)
    (by simpa using hnodup) hvalue
  exact
    ⟨.obj members, by simp [PyValue.record, project, projectItems_record, hm, bind, Except.bind]⟩

theorem projects_enum {value : PyValue} (h : Projects nfc value) :
    Projects nfc (.enum value) := by
  obtain ⟨j, hj⟩ := h
  exact ⟨j, by simpa [project] using hj⟩

end AtlasDb.Core
