import AtlasDb.Core.Rereading
import Mathlib.Data.List.Perm.Basic

/-!
# Which values share their canonical bytes

Every identity of the system is a digest of canonical bytes, so two values are told apart only if
their bytes are. Printing is injective, so the question is what `_project` identifies: strings with
the same normal form, the orders of a set or a dictionary, an enumeration and its value, datetimes
of one instant. Two more identifications come from the projection to plain JSON: a set is printed as
the list of its items in byte order, and a tagged scalar as a dictionary with its tag for a key.
Nothing else is identified (`canonicalJsonBytes_separates`).
-/

namespace AtlasDb.Core

open Timestamp

/-! ## Values alike -/

/-- The instant of a datetime with an offset. -/
def PyValue.instant (value : DateTime) : Option Int :=
  value.offset.map fun offset => Timestamp.instant value.date value.clock offset

inductive ScalarTag where
  | decimal
  | datetime
  | date
  | path
  | bytes
deriving DecidableEq

def ScalarTag.key : ScalarTag → String
  | .decimal => "$decimal"
  | .datetime => "$datetime"
  | .date => "$date"
  | .path => "$path"
  | .bytes => "$bytes"

/-- A tagged scalar, its tag and the text under it. -/
inductive Scalar : PyValue → ScalarTag → String → Prop where
  | decimal (text : String) : Scalar (.decimal text) .decimal text
  | datetime {value : DateTime} {offset : Int} {utc : Date × Clock}
      (hoffset : value.offset = some offset)
      (hutc : toUtc value.date value.clock offset = some utc) :
      Scalar (.datetime value) .datetime (String.ofList (isoformatUtc utc.1 utc.2))
  | date (value : Date) : Scalar (.date value) .date (String.ofList (isoformatDate value))
  | path (posix : String) : Scalar (.path posix) .path posix
  | bytes (octets : List UInt8) : Scalar (.bytes octets) .bytes (String.ofList (base64 octets))

/-- The items of a list stand in the order of their canonical bytes. -/
def InByteOrder (nfc : Nfc) (items : List PyValue) : Prop :=
  ∃ js, projectList nfc items = .ok js ∧ (js.map (Json.sortKey nfc)).Pairwise (· ≤ ·)

mutual

/-- Equal up to the normal form of strings and keys, the order of sets and dictionaries,
enumerations by value and datetimes by instant; if `loose`, up to a set for the list of its items
and a tagged scalar for its dictionary as well. -/
inductive Alike (nfc : Nfc) (loose : Prop) : PyValue → PyValue → Prop where
  | none : Alike nfc loose .none .none
  | bool (b : Bool) : Alike nfc loose (.bool b) (.bool b)
  | int (i : Int) : Alike nfc loose (.int i) (.int i)
  | float (repr : String) : Alike nfc loose (.float repr) (.float repr)
  | str {s t : String} (h : nfc.normalize s = nfc.normalize t) : Alike nfc loose (.str s) (.str t)
  | decimal (text : String) : Alike nfc loose (.decimal text) (.decimal text)
  | datetime {d e : DateTime} {i : Int} (hd : PyValue.instant d = some i)
      (he : PyValue.instant e = some i) : Alike nfc loose (.datetime d) (.datetime e)
  | date (d : Date) : Alike nfc loose (.date d) (.date d)
  | path (posix : String) : Alike nfc loose (.path posix) (.path posix)
  | bytes (octets : List UInt8) : Alike nfc loose (.bytes octets) (.bytes octets)
  | enumLeft {v w : PyValue} (h : Alike nfc loose v w) : Alike nfc loose (.enum v) w
  | enumRight {v w : PyValue} (h : Alike nfc loose v w) : Alike nfc loose v (.enum w)
  | list {vs ws : List PyValue} (h : AlikeList nfc loose vs ws) : Alike nfc loose
    (.list vs) (.list ws)
  | set {vs us ws ts : List PyValue} (hv : vs.Perm us) (hw : ws.Perm ts)
      (h : AlikeList nfc loose us ts) : Alike nfc loose (.set vs) (.set ws)
  | dict {vs us ws : List (PyValue × PyValue)} (hv : vs.Perm us) (h : AlikeItems nfc loose us ws) :
      Alike nfc loose (.dict vs) (.dict ws)
  | modelLeft {fields : List (String × PyValue)} {w : PyValue}
      (h : Alike nfc loose (.record fields) w) : Alike nfc loose (.model fields) w
  | modelRight {fields : List (String × PyValue)} {v : PyValue}
      (h : Alike nfc loose v (.record fields)) : Alike nfc loose v (.model fields)
  | setList {vs us ws : List PyValue} (hloose : loose) (hv : vs.Perm us)
      (horder : InByteOrder nfc ws) (h : AlikeList nfc loose us ws) :
      Alike nfc loose (.set vs) (.list ws)
  | listSet {vs ws ts : List PyValue} (hloose : loose) (hw : ws.Perm ts)
      (horder : InByteOrder nfc vs) (h : AlikeList nfc loose vs ts) :
      Alike nfc loose (.list vs) (.set ws)
  | tagDict {v key value : PyValue} {tag : ScalarTag} {text k : String} (hloose : loose)
      (hv : Scalar v tag text) (hkey : keyText key = some k) (htag : nfc.normalize k = tag.key)
      (h : Alike nfc loose (.str text) value) :
      Alike nfc loose v (.dict [(key, value)])
  | dictTag {w key value : PyValue} {tag : ScalarTag} {text k : String} (hloose : loose)
      (hw : Scalar w tag text) (hkey : keyText key = some k) (htag : nfc.normalize k = tag.key)
      (h : Alike nfc loose (.str text) value) :
      Alike nfc loose (.dict [(key, value)]) w

inductive AlikeList (nfc : Nfc) (loose : Prop) : List PyValue → List PyValue → Prop where
  | nil : AlikeList nfc loose [] []
  | cons {v w : PyValue} {vs ws : List PyValue} (h : Alike nfc loose v w)
      (hrest : AlikeList nfc loose vs ws) : AlikeList nfc loose (v :: vs) (w :: ws)

inductive AlikeItems (nfc : Nfc) (loose : Prop) :
    List (PyValue × PyValue) → List (PyValue × PyValue) → Prop where
  | nil : AlikeItems nfc loose [] []
  | cons {key key' v w : PyValue} {k k' : String} {vs ws : List (PyValue × PyValue)}
      (hkey : keyText key = some k) (hkey' : keyText key' = some k')
      (hname : nfc.normalize k = nfc.normalize k') (h : Alike nfc loose v w)
      (hrest : AlikeItems nfc loose vs ws) :
      AlikeItems nfc loose ((key, v) :: vs) ((key', w) :: ws)

end

/-! ## Where a document comes from -/

/-- Enumerations and models replaced by what stands for them. -/
def PyValue.bare : PyValue → PyValue
  | .enum value => value.bare
  | .model fields => .record fields
  | v => v

variable {items : List (PyValue × PyValue)} {vs : List PyValue}

section Origin

variable {nfc : Nfc} {loose : Prop}

theorem project_bare (nfc : Nfc) : ∀ v : PyValue, project nfc v.bare = project nfc v
  | .enum value => by
      rw [PyValue.bare, project, project_bare nfc value]
  | .model fields => by
      rw [PyValue.bare, PyValue.record, project, project, projectItems_record]
  | .none | .bool _ | .int _ | .float _ | .nonFinite | .str _ | .decimal _ | .datetime _ | .date _
  | .path _ | .bytes _ | .list _ | .set _ | .dict _ | .other _ => rfl

theorem alike_of_bare_left : ∀ {v w : PyValue}, Alike nfc loose v.bare w → Alike nfc loose v w
  | .enum _, _, h => .enumLeft (alike_of_bare_left h)
  | .model _, _, h => .modelLeft h
  | .none, _, h | .bool _, _, h | .int _, _, h | .float _, _, h | .nonFinite, _, h | .str _, _, h
  | .decimal _, _, h | .datetime _, _, h | .date _, _, h | .path _, _, h | .bytes _, _, h
  | .list _, _, h | .set _, _, h | .dict _, _, h | .other _, _, h => h

theorem alike_of_bare_right : ∀ {v w : PyValue}, Alike nfc loose v w.bare → Alike nfc loose v w
  | _, .enum _, h => .enumRight (alike_of_bare_right h)
  | _, .model _, h => .modelRight h
  | _, .none, h | _, .bool _, h | _, .int _, h | _, .float _, h | _, .nonFinite, h | _, .str _, h
  | _, .decimal _, h | _, .datetime _, h | _, .date _, h | _, .path _, h | _, .bytes _, h
  | _, .list _, h | _, .set _, h | _, .dict _, h | _, .other _, h => h

theorem wellFormedItems_record {fields : List (String × PyValue)} (h : wellFormedFields fields) :
    wellFormedItems (fields.map fun field => (.str field.1, field.2)) := by
  induction fields with
  | nil => trivial
  | cons field fields ih => exact ⟨h.1, ih h.2⟩

theorem PyValue.WellFormed.bare : ∀ {v : PyValue}, v.WellFormed → v.bare.WellFormed
  | .enum value, h => @PyValue.WellFormed.bare value h
  | .model _, h => wellFormedItems_record h
  | .none, h | .bool _, h | .int _, h | .float _, h | .nonFinite, h | .str _, h | .decimal _, h
  | .datetime _, h | .date _, h | .path _, h | .bytes _, h | .list _, h | .set _, h | .dict _, h
  | .other _, h => h

/-- An entry of a dictionary and its member. -/
def EntryProjects (nfc : Nfc) (item : PyValue × PyValue) (m : String × Json) : Prop :=
  ∃ k, keyText item.1 = some k ∧ m.1 = nfc.normalize k ∧ project nfc item.2 = .ok m.2

/-- The values that project to a document, told by its shape. -/
inductive Origin (nfc : Nfc) : PyValue → Json → Prop where
  | none : Origin nfc .none .null
  | bool (b : Bool) : Origin nfc (.bool b) (.bool b)
  | int (i : Int) : Origin nfc (.int i) (.int i)
  | float (repr : String) : Origin nfc (.float repr) (.float repr)
  | str (s : String) : Origin nfc (.str s) (.str (nfc.normalize s))
  | tagged {v : PyValue} {tag : ScalarTag} {text : String} (h : Scalar v tag text) :
      Origin nfc v (tagged tag.key text)
  | list {vs : List PyValue} {js : List Json}
      (h : List.Forall₂ (fun v j => project nfc v = .ok j) vs js) : Origin nfc (.list vs) (.arr js)
  | set {vs : List PyValue} {js : List Json}
      (h : List.Forall₂ (fun v j => project nfc v = .ok j) vs js) :
      Origin nfc (.set vs) (.arr (sortByBytes nfc js))
  | dict {items : List (PyValue × PyValue)} {ms : List (String × Json)}
      (h : List.Forall₂ (EntryProjects nfc) items ms) : Origin nfc (.dict items) (.obj ms)

theorem forall₂_of_projectList {js : List Json}
    (h : projectList nfc vs = .ok js) : List.Forall₂ (fun v j => project nfc v = .ok j) vs js := by
  induction vs generalizing js with
  | nil =>
    cases h
    exact .nil
  | cons v vs ih =>
    simp only [projectList, Except.bind_eq_ok] at h
    obtain ⟨j, hj, js, hjs, h⟩ := h
    cases h
    exact .cons hj (ih hjs)

theorem projectList_of_forall₂ {js : List Json}
    (h : List.Forall₂ (fun v j => project nfc v = .ok j) vs js) : projectList nfc vs = .ok js := by
  induction h with
  | nil => rfl
  | cons hj _ ih =>
    rw [projectList, hj, ih]
    rfl

theorem forall₂_of_projectItems
    {projected ms : List (String × Json)} (h : projectItems nfc projected items = .ok ms) :
    ∃ added, ms = projected ++ added ∧ List.Forall₂ (EntryProjects nfc) items added := by
  induction items generalizing projected with
  | nil =>
    cases h
    exact ⟨[], (List.append_nil _).symm, .nil⟩
  | cons item items ih =>
    obtain ⟨key, value⟩ := item
    simp only [projectItems] at h
    cases hk : keyText key with
    | none =>
      rw [hk] at h
      cases h
    | some k =>
      simp only [hk, Except.bind_eq_ok] at h
      obtain ⟨j, hj, projected', hadd, h⟩ := h
      unfold addMember at hadd
      split at hadd
      · cases hadd
      · cases hadd
        obtain ⟨added, rfl, hadded⟩ := ih h
        exact ⟨(nfc.normalize k, j) :: added, by simp, .cons ⟨k, hk, rfl, hj⟩ hadded⟩

theorem origin_of_projectItems {j : Json}
    (h : project nfc (.dict items) = .ok j) : Origin nfc (.dict items) j := by
  rw [project, Except.bind_eq_ok] at h
  obtain ⟨ms, hms, h⟩ := h
  cases h
  obtain ⟨added, rfl, hadded⟩ := forall₂_of_projectItems hms
  exact .dict hadded

/-- Where a projected value comes from. -/
theorem origin_of_project : ∀ {v : PyValue} {j : Json}, project nfc v = .ok j →
    Origin nfc v.bare j
  | .none, _, h => by cases h; exact .none
  | .bool b, _, h => by cases h; exact .bool b
  | .int i, _, h => by cases h; exact .int i
  | .float repr, _, h => by cases h; exact .float repr
  | .nonFinite, _, h => by cases h
  | .str s, _, h => by cases h; exact .str s
  | .enum value, j, h => @origin_of_project value j h
  | .decimal text, _, h => by cases h; exact .tagged (.decimal text)
  | .datetime value, _, h => by
      rw [project] at h
      split at h
      · cases h
      · next offset hoffset =>
          split at h
          · cases h
          · next utc hutc =>
              cases h
              exact .tagged (.datetime hoffset hutc)
  | .date value, _, h => by cases h; exact .tagged (.date value)
  | .path posix, _, h => by cases h; exact .tagged (.path posix)
  | .bytes octets, _, h => by cases h; exact .tagged (.bytes octets)
  | .list items, _, h => by
      rw [project, Except.bind_eq_ok] at h
      obtain ⟨js, hjs, h⟩ := h
      cases h
      exact .list (forall₂_of_projectList hjs)
  | .set items, _, h => by
      rw [project, Except.bind_eq_ok] at h
      obtain ⟨js, hjs, h⟩ := h
      cases h
      exact .set (forall₂_of_projectList hjs)
  | .dict items, _, h => origin_of_projectItems h
  | .model fields, _, h => by
      rw [← project_bare] at h
      exact origin_of_projectItems h
  | .other qualname, _, h => by cases h

end Origin

/-! ## The texts under the tags determine the scalars -/

theorem ScalarTag.key_injective {a b : ScalarTag} (h : a.key = b.key) : a = b := by
  revert h
  cases a <;> cases b <;> decide

theorem isoformatDate_injective {d e : Date} (h : isoformatDate d = isoformatDate e) : d = e := by
  have hd : parseIsoformatDate (isoformatDate d) = some d := parseIsoformatDate_printed d
  have he : parseIsoformatDate (isoformatDate e) = some e := parseIsoformatDate_printed e
  rw [h, he] at hd
  exact (Option.some.inj hd).symm

theorem isoformatUtc_instant {d e : Date} {c k : Clock} (h : isoformatUtc d c = isoformatUtc e k) :
    Timestamp.instant d c 0 = Timestamp.instant e k 0 := by
  have hle : ¬ Timestamp.instant d c 0 < Timestamp.instant e k 0 := by
    rw [← isoformatUtc_lt_iff, h]
    exact lt_irrefl _
  have hge : ¬ Timestamp.instant e k 0 < Timestamp.instant d c 0 := by
    rw [← isoformatUtc_lt_iff, h]
    exact lt_irrefl _
  omega

theorem toUtc_instant {value : DateTime} {offset : Int} {utc : Date × Clock}
    (hw : (PyValue.datetime value).WellFormed) (hoffset : value.offset = some offset)
    (hutc : toUtc value.date value.clock offset = some utc) :
    PyValue.instant value = some (Timestamp.instant utc.1 utc.2 0) := by
  rw [PyValue.instant, hoffset, Option.map_some, instant_toUtc hutc (hw offset hoffset)]

def base64Value (c : Char) : Nat :=
  "ABCDEFGHIJKLMNOPQRSTUVWXYZabcdefghijklmnopqrstuvwxyz0123456789+/".toList.idxOf c

theorem base64Value_base64Char : ∀ n < 64, base64Value (base64Char n) = n := by decide +kernel

theorem base64Char_ne_pad {n : Nat} (hn : n < 64) : base64Char n ≠ '=' := by
  intro h
  have hvalue := base64Value_base64Char n hn
  rw [h] at hvalue
  have hpad : base64Value '=' = 64 := by decide
  omega

/-- The octets of a text of groups of four. -/
def unbase64 : List Char → List Nat
  | a :: b :: c :: d :: rest =>
    let n := base64Value a * 4096 + base64Value b * 64 + base64Value c
    if c = '=' then [(base64Value a * 64 + base64Value b) / 16]
    else if d = '=' then [n / 1024, n / 4 % 256]
    else n / 1024 :: n / 4 % 256 :: (n % 4 * 64 + base64Value d) :: unbase64 rest
  | _ => []

/-- Base64 is read back. -/
theorem unbase64_base64 : ∀ octets : List UInt8, unbase64 (base64 octets) = octets.map UInt8.toNat
  | [] => rfl
  | [a] => by
      have ha := a.toNat_lt
      rw [base64, unbase64, if_pos rfl, base64Value_base64Char _ (by omega),
        base64Value_base64Char _ (by omega), List.map_cons, List.map_nil]
      congr 1
      omega
  | [a, b] => by
      have ha := a.toNat_lt
      have hb := b.toNat_lt
      rw [base64, unbase64, if_neg (base64Char_ne_pad (by omega)), if_pos rfl,
        base64Value_base64Char _ (by omega), base64Value_base64Char _ (by omega),
        base64Value_base64Char _ (by omega), List.map_cons, List.map_cons, List.map_nil]
      congr 1
      · omega
      · congr 1
        omega
  | a :: b :: c :: rest => by
      have ha := a.toNat_lt
      have hb := b.toNat_lt
      have hc := c.toNat_lt
      rw [base64, unbase64, if_neg (base64Char_ne_pad (by omega)),
        if_neg (base64Char_ne_pad (by omega)), base64Value_base64Char _ (by omega),
        base64Value_base64Char _ (by omega), base64Value_base64Char _ (by omega),
        base64Value_base64Char _ (by omega), unbase64_base64 rest, List.map_cons, List.map_cons,
        List.map_cons]
      congr 1
      · omega
      · congr 1
        · omega
        · congr 1
          omega

theorem base64_injective {xs ys : List UInt8} (h : base64 xs = base64 ys) : xs = ys := by
  have hx := unbase64_base64 xs
  rw [h, unbase64_base64 ys] at hx
  exact (List.map_injective_iff.mpr (fun _ _ => UInt8.toNat_inj.mp) hx).symm

theorem ofList_injective {xs ys : List Char} (h : String.ofList xs = String.ofList ys) :
    xs = ys := by
  rw [← String.toList_ofList (l := xs), h, String.toList_ofList]

theorem Scalar.alike {nfc : Nfc} {loose : Prop} {v w : PyValue} {tag tag' : ScalarTag}
    {text text' : String} (hv : Scalar v tag text) (hw : Scalar w tag' text') (htag : tag = tag')
    (htext : text = text') (hwv : v.WellFormed) (hww : w.WellFormed) : Alike nfc loose v w := by
  cases hv with
  | decimal text =>
    cases hw with
    | decimal text' => exact htext ▸ .decimal text
    | _ => cases htag
  | datetime hoffset hutc =>
    cases hw with
    | datetime hoffset' hutc' =>
      have hinstant := isoformatUtc_instant (ofList_injective htext)
      refine .datetime (toUtc_instant hwv hoffset hutc) ?_
      rw [hinstant]
      exact toUtc_instant hww hoffset' hutc'
    | _ => cases htag
  | date value =>
    cases hw with
    | date value' => exact isoformatDate_injective (ofList_injective htext) ▸ .date value
    | _ => cases htag
  | path =>
    cases hw with
    | path => exact htext ▸ .path _
    | _ => cases htag
  | bytes octets =>
    cases hw with
    | bytes octets' => exact base64_injective (ofList_injective htext) ▸ .bytes octets
    | _ => cases htag

/-! ## Equal documents come from values alike -/

section Separation

variable {nfc : Nfc}

/-- A document whose values are alike, if another has the same sorted form. -/
def Separates (nfc : Nfc) (j : Json) : Prop :=
  ∀ a b j', a.WellFormed → b.WellFormed → project nfc a = .ok j → project nfc b = .ok j' →
    j.sortKeys = j'.sortKeys → Alike nfc True a b

theorem sortKeysList_eq_map (js : List Json) : Json.sortKeysList js = js.map Json.sortKeys := by
  induction js with
  | nil => rfl
  | cons j js ih => rw [Json.sortKeysList, ih, List.map_cons]

theorem wellFormedList_iff : wellFormedList vs ↔ ∀ v ∈ vs, v.WellFormed := by
  induction vs with
  | nil => exact ⟨fun _ => nofun, fun _ => trivial⟩
  | cons v vs ih => rw [wellFormedList, ih, List.forall_mem_cons]

theorem wellFormedItems_iff :
    wellFormedItems items ↔ ∀ item ∈ items, item.2.WellFormed := by
  induction items with
  | nil => exact ⟨fun _ => nofun, fun _ => trivial⟩
  | cons item items ih => rw [wellFormedItems, ih, List.forall_mem_cons]

theorem alikeList_of_forall₂ {vs ws : List PyValue} {js ks : List Json}
    (hv : List.Forall₂ (fun v j => project nfc v = .ok j) vs js)
    (hw : List.Forall₂ (fun v j => project nfc v = .ok j) ws ks)
    (hsort : js.map Json.sortKeys = ks.map Json.sortKeys) (hsep : ∀ j ∈ js, Separates nfc j)
    (hvs : ∀ v ∈ vs, v.WellFormed) (hws : ∀ w ∈ ws, w.WellFormed) : AlikeList nfc True vs ws := by
  induction hv generalizing ws ks with
  | nil =>
    cases hw with
    | nil => exact .nil
    | cons _ _ => cases hsort
  | cons hj _ ih =>
    cases hw with
    | nil => cases hsort
    | cons hk hrest =>
      obtain ⟨hhead, htail⟩ := List.cons.inj hsort
      obtain ⟨hjsep, hsep⟩ := List.forall_mem_cons.mp hsep
      obtain ⟨hv, hvs⟩ := List.forall_mem_cons.mp hvs
      obtain ⟨hw, hws⟩ := List.forall_mem_cons.mp hws
      exact .cons (hjsep _ _ _ hv hw hj hk hhead) (ih hrest htail hsep hvs hws)

variable {ms ns : List (String × Json)}

theorem alikeItems_of_forall₂ {vs ws : List (PyValue × PyValue)}
    (hv : List.Forall₂ (EntryProjects nfc) vs ms) (hw : List.Forall₂ (EntryProjects nfc) ws ns)
    (hsort : (ms.map fun m => (m.1, m.2.sortKeys)) = ns.map fun m => (m.1, m.2.sortKeys))
    (hsep : ∀ m ∈ ms, Separates nfc m.2) (hvs : ∀ v ∈ vs, v.2.WellFormed)
    (hws : ∀ w ∈ ws, w.2.WellFormed) : AlikeItems nfc True vs ws := by
  induction hv generalizing ws ns with
  | nil =>
    cases hw with
    | nil => exact .nil
    | cons _ _ => cases hsort
  | cons hm _ ih =>
    cases hw with
    | nil => cases hsort
    | cons hn hrest =>
      obtain ⟨hhead, htail⟩ := List.cons.inj hsort
      obtain ⟨hname, hvalue⟩ := Prod.mk.inj hhead
      obtain ⟨hmsep, hsep⟩ := List.forall_mem_cons.mp hsep
      obtain ⟨hv, hvs⟩ := List.forall_mem_cons.mp hvs
      obtain ⟨hw, hws⟩ := List.forall_mem_cons.mp hws
      obtain ⟨k, hk, hkname, hj⟩ := hm
      obtain ⟨k', hk', hkname', hj'⟩ := hn
      refine .cons hk hk' ?_ (hmsep _ _ _ hv hw hj hj' hvalue) (ih hrest htail hsep hvs hws)
      rw [← hkname, ← hkname', hname]

theorem set_items_sorted {js : List Json}
    (h : List.Forall₂ (fun v j => project nfc v = .ok j) vs js) :
    ∃ us, vs.Perm us ∧ List.Forall₂ (fun v j => project nfc v = .ok j) us (sortByBytes nfc js) := by
  have hperm : (sortByBytes nfc js).Perm js := List.perm_insertionSort _ js
  obtain ⟨us, hus, huv⟩ := List.perm_comp_forall₂ hperm h.flip
  exact ⟨us, huv.symm, hus.flip⟩

theorem sortByBytes_inByteOrder {ws : List PyValue} {js ks : List Json}
    (hw : List.Forall₂ (fun v j => project nfc v = .ok j) ws ks)
    (hsort : (sortByBytes nfc js).map Json.sortKeys = ks.map Json.sortKeys) :
    InByteOrder nfc ws := by
  refine ⟨ks, projectList_of_forall₂ hw, ?_⟩
  -- the key reads a document with its keys in order
  have hkey : ∀ j : Json, j.sortKey nfc = utf8 (j.sortKeys.renormalize nfc).render := by
    intro j
    rw [Json.sortKey, Json.dumps, Json.sortKeys_renormalize]
  have hkeys : ks.map (Json.sortKey nfc) = (sortByBytes nfc js).map (Json.sortKey nfc) := by
    have hrender := congrArg (List.map fun j => utf8 (Json.render (Json.renormalize nfc j))) hsort
    rw [List.map_map, List.map_map] at hrender
    rw [funext hkey]
    exact hrender.symm
  rw [hkeys, List.pairwise_map]
  exact List.pairwise_insertionSort (fun a b : Json => a.sortKey nfc ≤ b.sortKey nfc) js

theorem alike_str_of_project {value : PyValue} {j : Json} {text : String}
    (h : project nfc value = .ok j) (hsort : j.sortKeys = .str text) :
    Alike nfc True (.str text) value := by
  refine alike_of_bare_right ?_
  have horigin := origin_of_project h
  generalize value.bare = v at horigin
  cases horigin with
  | str s =>
    obtain rfl : nfc.normalize s = text := Json.str.inj hsort
    exact .str (nfc.idem s)
  | _ => cases hsort

theorem sortKeysMembers_perm (h : (Json.obj ms).sortKeys = (Json.obj ns).sortKeys) :
    (ms.map fun m => (m.1, m.2.sortKeys)).Perm (ns.map fun m => (m.1, m.2.sortKeys)) := by
  rw [Json.sortKeys, Json.sortKeys, Json.sortKeysMembers_eq_map, Json.sortKeysMembers_eq_map] at h
  exact (List.perm_insertionSort Json.keyLe _).symm.trans
    ((List.Perm.of_eq (Json.obj.inj h)).trans (List.perm_insertionSort Json.keyLe _))

theorem dict_of_tagged {ms : List (String × Json)}
    {tag : ScalarTag} {text : String} (h : List.Forall₂ (EntryProjects nfc) items ms)
    (hsort : (Json.obj ms).sortKeys = (tagged tag.key text).sortKeys) :
    ∃ key value k, items = [(key, value)] ∧ keyText key = some k ∧ nfc.normalize k = tag.key ∧
      Alike nfc True (.str text) value := by
  have hperm := sortKeysMembers_perm hsort
  have hsingle := List.perm_singleton.mp hperm
  cases h with
  | nil => cases hsingle
  | @cons item m _ _ hentry hrest =>
    obtain ⟨key, value⟩ := item
    obtain ⟨hm, hnil⟩ := List.cons.inj hsingle
    obtain ⟨hname, hvalue⟩ := Prod.mk.inj hm
    obtain ⟨k, hk, hkname, hj⟩ := hentry
    obtain rfl := List.map_eq_nil_iff.mp hnil
    cases hrest
    exact ⟨key, value, k, rfl, hk, hkname ▸ hname, alike_str_of_project hj hvalue⟩

theorem dict_alike {vs ws : List (PyValue × PyValue)}
    (hv : List.Forall₂ (EntryProjects nfc) vs ms) (hw : List.Forall₂ (EntryProjects nfc) ws ns)
    (hsort : (Json.obj ms).sortKeys = (Json.obj ns).sortKeys) (hsep : ∀ m ∈ ms, Separates nfc m.2)
    (hvs : ∀ v ∈ vs, v.2.WellFormed) (hws : ∀ w ∈ ws, w.2.WellFormed) :
    Alike nfc True (.dict vs) (.dict ws) := by
  -- a permutation of the members, and with them of the entries, makes the documents equal
  have hreorder : Relation.Comp
      (fun xs ys => xs = List.map (fun m : String × Json => (m.1, m.2.sortKeys)) ys) List.Perm
      (ns.map fun m => (m.1, m.2.sortKeys)) ms := by
    rw [List.eq_map_comp_perm]
    exact (sortKeysMembers_perm hsort).symm
  obtain ⟨ordered, hordered, hperm⟩ := hreorder
  obtain ⟨us, hus, huv⟩ := List.perm_comp_forall₂ hperm hv.flip
  refine .dict huv.symm (alikeItems_of_forall₂ hus.flip hw hordered.symm ?_ ?_ hws)
  · exact fun m hm => hsep m (hperm.mem_iff.mp hm)
  · exact fun u hu => hvs u (huv.mem_iff.mp hu)

theorem arr_sortKeys_inj {js ks : List Json} (h : (Json.arr js).sortKeys = (Json.arr ks).sortKeys) :
    js.map Json.sortKeys = ks.map Json.sortKeys := by
  rw [Json.sortKeys, Json.sortKeys, sortKeysList_eq_map, sortKeysList_eq_map] at h
  exact Json.arr.inj h

theorem sizeOf_mem_arr {js : List Json} {j : Json} (h : j ∈ js) :
    sizeOf j < sizeOf (Json.arr js) := by
  have hlt := List.sizeOf_lt_of_mem h
  simp only [Json.arr.sizeOf_spec]
  omega

theorem sizeOf_mem_obj {ms : List (String × Json)} {m : String × Json} (h : m ∈ ms) :
    sizeOf m.2 < sizeOf (Json.obj ms) := by
  have hlt := List.sizeOf_lt_of_mem h
  obtain ⟨k, j⟩ := m
  simp only [Json.obj.sizeOf_spec, Prod.mk.sizeOf_spec] at hlt ⊢
  omega

/-- Two values with one projection are alike. -/
theorem separates (nfc : Nfc) (j : Json) : Separates nfc j := by
  induction hn : sizeOf j using Nat.strongRecOn generalizing j with
  | _ n ih =>
    subst hn
    intro a b j' ha hb hpa hpb hsort
    refine alike_of_bare_left (alike_of_bare_right ?_)
    have hfrom := origin_of_project hpa
    have hfrom' := origin_of_project hpb
    have hwa := ha.bare
    have hwb := hb.bare
    generalize a.bare = v at hfrom hwa ⊢
    generalize b.bare = w at hfrom' hwb ⊢
    cases hfrom with
    | none =>
      cases hfrom' with
      | none => exact .none
      | _ => cases hsort
    | bool b =>
      cases hfrom' with
      | bool b' => exact Json.bool.inj hsort ▸ .bool b
      | _ => cases hsort
    | int i =>
      cases hfrom' with
      | int i' => exact Json.int.inj hsort ▸ .int i
      | _ => cases hsort
    | float repr =>
      cases hfrom' with
      | float repr' => exact Json.float.inj hsort ▸ .float repr
      | _ => cases hsort
    | str s =>
      cases hfrom' with
      | str t => exact .str (Json.str.inj hsort)
      | _ => cases hsort
    | tagged hscalar =>
      cases hfrom' with
      | tagged hscalar' =>
        obtain ⟨hkey, htext⟩ := Prod.mk.inj (List.cons.inj (Json.obj.inj hsort)).1
        exact hscalar.alike hscalar' (ScalarTag.key_injective hkey) (Json.str.inj htext) hwa hwb
      | dict h =>
        obtain ⟨key, value, k, rfl, hk, htag, halike⟩ := dict_of_tagged h hsort.symm
        exact .tagDict trivial hscalar hk htag halike
      | _ => cases hsort
    | @list vs js h =>
      have hvs := wellFormedList_iff.mp hwa
      have hsep : ∀ j ∈ js, Separates nfc j := fun j hj => ih _ (sizeOf_mem_arr hj) j rfl
      cases hfrom' with
      | list h' =>
        have hws := wellFormedList_iff.mp hwb
        exact .list (alikeList_of_forall₂ h h' (arr_sortKeys_inj hsort) hsep hvs hws)
      | set h' =>
        have hws := wellFormedList_iff.mp hwb
        have hmap := arr_sortKeys_inj hsort
        obtain ⟨ts, hts, h'⟩ := set_items_sorted h'
        refine .listSet trivial hts (sortByBytes_inByteOrder h hmap.symm)
          (alikeList_of_forall₂ h h' hmap hsep hvs fun w hw => hws w (hts.mem_iff.mpr hw))
      | _ => cases hsort
    | @set vs js h =>
      have hvs := wellFormedList_iff.mp hwa
      have hsep : ∀ j ∈ sortByBytes nfc js, Separates nfc j :=
        fun j hj => ih _ (sizeOf_mem_arr hj) j rfl
      obtain ⟨us, hus, h⟩ := set_items_sorted h
      have hws' : ∀ u ∈ us, u.WellFormed := fun u hu => hvs u (hus.mem_iff.mpr hu)
      cases hfrom' with
      | list h' =>
        have hws := wellFormedList_iff.mp hwb
        have hmap := arr_sortKeys_inj hsort
        exact .setList trivial hus (sortByBytes_inByteOrder h' hmap)
          (alikeList_of_forall₂ h h' hmap hsep hws' hws)
      | set h' =>
        have hws := wellFormedList_iff.mp hwb
        obtain ⟨ts, hts, h'⟩ := set_items_sorted h'
        exact .set hus hts (alikeList_of_forall₂ h h' (arr_sortKeys_inj hsort) hsep hws'
          fun w hw => hws w (hts.mem_iff.mpr hw))
      | _ => cases hsort
    | @dict items ms h =>
      have hsep : ∀ m ∈ ms, Separates nfc m.2 := fun m hm => ih _ (sizeOf_mem_obj hm) m.2 rfl
      cases hfrom' with
      | tagged hscalar =>
        obtain ⟨key, value, k, rfl, hk, htag, halike⟩ := dict_of_tagged h hsort
        exact .dictTag trivial hscalar hk htag halike
      | dict h' =>
        exact dict_alike h h' hsort hsep (wellFormedItems_iff.mp hwa) (wellFormedItems_iff.mp hwb)
      | _ => cases hsort

/-- **Canonical bytes separate values**: those of two values are the same only if the values are
alike, up to a set for the list of its items in byte order and a tagged scalar for the dictionary
with its tag for a key. -/
theorem canonicalJsonBytes_separates {a b : PyValue} {octets : List Nat} (ha : a.WellFormed)
    (hb : b.WellFormed) (hbytes : canonicalJsonBytes nfc a = .ok octets)
    (hbytes' : canonicalJsonBytes nfc b = .ok octets) : Alike nfc True a b := by
  rw [canonicalJsonBytes, Except.bind_eq_ok] at hbytes hbytes'
  obtain ⟨j, hj, htext⟩ := hbytes
  obtain ⟨k, hk, htext'⟩ := hbytes'
  have hj' := (project_normal ha hj).1.sortKeys.printable
  have hk' := (project_normal hb hk).1.sortKeys.printable
  have hrender : j.dumps = k.dumps :=
    utf8_injective (Except.ok.inj (htext.trans htext'.symm))
  exact separates nfc j a b k ha hb hj hk (Json.render_injective hj' hk' hrender)

end Separation

namespace Demo

/-- The bytes of a set do not tell its order. -/
theorem set_order_alike :
    canonicalJsonBytes asciiNfc (.set [.int 2, .int 1]) = .ok (utf8 "[1,2]".toList) ∧
      Alike asciiNfc True (.set [.int 2, .int 1]) (.set [.int 1, .int 2]) := by
  have hset : canonicalJsonBytes asciiNfc (.set [.int 2, .int 1]) = .ok (utf8 "[1,2]".toList) := by
    rfl
  have hset' : canonicalJsonBytes asciiNfc (.set [.int 1, .int 2]) = .ok (utf8 "[1,2]".toList) := by
    rfl
  exact ⟨hset, canonicalJsonBytes_separates ⟨trivial, trivial, trivial⟩ ⟨trivial, trivial, trivial⟩
    hset hset'⟩

def decimalDict : PyValue := .dict [(.str "$decimal", .str "1.5")]

/-- A decimal shares its bytes with a plain dictionary, and a set with a list. -/
theorem decimal_shares_bytes_with_dict :
    (canonicalJsonBytes asciiNfc (.decimal "1.5") = canonicalJsonBytes asciiNfc decimalDict ∧
        (canonicalJsonBytes asciiNfc decimalDict).isOk = true ∧
        ¬ Alike asciiNfc False (.decimal "1.5") decimalDict) ∧
      canonicalJsonBytes asciiNfc (.set [.int 1]) = canonicalJsonBytes asciiNfc (.list [.int 1]) ∧
        (canonicalJsonBytes asciiNfc (.list [.int 1])).isOk = true ∧
        ¬ Alike asciiNfc False (.set [.int 1]) (.list [.int 1]) := by
  refine ⟨⟨rfl, rfl, fun h => ?_⟩, rfl, rfl, fun h => ?_⟩
  · cases h with
    | tagDict hloose => exact hloose
  · cases h with
    | setList hloose => exact hloose

end Demo

end AtlasDb.Core
