import Mathlib.Data.List.Nodup

/-!
# Association lists

Dictionaries as lists of entries: a lookup finds an entry of the list, any entry if the keys are
distinct, and setting a key is putting an entry in front of those with other keys.
-/

namespace AtlasDb.Lib

variable {κ ν : Type} [DecidableEq κ] {entries : List (κ × ν)} {key : κ} {value : ν}

theorem mem_of_lookup (h : entries.lookup key = some value) : (key, value) ∈ entries := by
  induction entries with
  | nil => cases h
  | cons entry entries ih =>
    obtain ⟨other, old⟩ := entry
    rw [List.lookup_cons] at h
    by_cases hkey : key = other
    · subst hkey
      simp only [beq_self_eq_true, Option.some.injEq] at h
      simp [h]
    · rw [beq_false_of_ne hkey] at h
      exact List.mem_cons_of_mem _ (ih h)

theorem lookup_of_mem_of_nodup (hnodup : (entries.map Prod.fst).Nodup)
    (h : (key, value) ∈ entries) : entries.lookup key = some value := by
  induction entries with
  | nil => cases h
  | cons entry entries ih =>
    obtain ⟨other, old⟩ := entry
    rw [List.map_cons, List.nodup_cons] at hnodup
    rcases List.mem_cons.1 h with heq | hmem
    · obtain ⟨rfl, rfl⟩ := Prod.mk.inj heq
      simp
    · have hne : key ≠ other := by
        rintro rfl
        exact hnodup.1 (List.mem_map.2 ⟨_, hmem, rfl⟩)
      rw [List.lookup_cons, beq_false_of_ne hne]
      exact ih hnodup.2 hmem

/-- Removing other keys does not change a lookup. -/
theorem lookup_filter_key {p : κ → Bool} (hkey : p key = true) :
    (entries.filter fun entry => p entry.1).lookup key = entries.lookup key := by
  induction entries with
  | nil => rfl
  | cons entry entries ih =>
    obtain ⟨other, old⟩ := entry
    cases hp : p other with
    | true =>
      rw [List.filter_cons_of_pos (by simpa using hp), List.lookup_cons, List.lookup_cons, ih]
    | false =>
      have hne : key ≠ other := by
        rintro rfl
        simp [hkey] at hp
      rw [List.filter_cons_of_neg (by simp [hp]), List.lookup_cons, beq_false_of_ne hne, ih]

theorem lookup_update (entries : List (κ × ν)) (key key' : κ) (value : ν) :
    ((key, value) :: entries.filter fun entry => entry.1 ≠ key).lookup key'
      = if key' = key then some value else entries.lookup key' := by
  by_cases hkey : key' = key
  · simp [hkey]
  · rw [List.lookup_cons, beq_false_of_ne hkey, if_neg hkey]
    exact @lookup_filter_key κ ν _ entries key' (fun k => k ≠ key) (by simpa using hkey)

/-- `x` is the last item of `xs` with the property. -/
def LastOf {α : Type} (p : α → Prop) (xs : List α) (x : α) : Prop :=
  ∃ before after, xs = before ++ x :: after ∧ p x ∧ ∀ y ∈ after, ¬ p y

/-- A lookup from the back finds the last entry of the key. -/
theorem lookup_reverse_iff {κ ν : Type} [BEq κ] [LawfulBEq κ] {entries : List (κ × ν)} {key : κ}
    {value : ν} : entries.reverse.lookup key = some value ↔
      LastOf (fun entry => entry.1 = key) entries (key, value) := by
  rw [List.lookup_eq_some_iff]
  constructor
  · rintro ⟨first, rest, hsplit, hfirst⟩
    refine ⟨rest.reverse, first.reverse, ?_, rfl, fun entry hentry heq => ?_⟩
    · rw [← List.reverse_inj, hsplit]
      simp
    · simpa [heq] using hfirst entry (List.mem_reverse.mp hentry)
  · rintro ⟨before, after, rfl, -, hafter⟩
    refine ⟨after.reverse, before.reverse, by simp, fun entry hentry => ?_⟩
    have hne := hafter entry (List.mem_reverse.mp hentry)
    simpa using fun heq : key = entry.1 => hne heq.symm

theorem getLast?_filter_iff {α : Type} {p : α → Bool} {xs : List α} {x : α} :
    (xs.filter p).getLast? = some x ↔ LastOf (fun y => p y = true) xs x := by
  rw [← List.head?_reverse, ← List.filter_reverse, List.head?_filter, List.find?_eq_some_iff_append]
  constructor
  · rintro ⟨hx, first, rest, hsplit, hfirst⟩
    refine ⟨rest.reverse, first.reverse, ?_, hx, fun y hy => ?_⟩
    · rw [← List.reverse_inj, hsplit]
      simp
    · simpa using hfirst y (List.mem_reverse.mp hy)
  · rintro ⟨before, after, rfl, hx, hafter⟩
    refine ⟨hx, after.reverse, before.reverse, by simp, fun y hy => ?_⟩
    simpa using hafter y (List.mem_reverse.mp hy)

/-- `entries[key] = value` on a dictionary that keeps the order of insertion. -/
def setEntry (entries : List (κ × ν)) (key : κ) (value : ν) : List (κ × ν) :=
  match entries with
  | [] => [(key, value)]
  | entry :: entries =>
    if entry.1 = key then (key, value) :: entries else entry :: setEntry entries key value

theorem lookup_setEntry (entries : List (κ × ν)) (key key' : κ) (value : ν) :
    (setEntry entries key value).lookup key'
      = if key' = key then some value else entries.lookup key' := by
  induction entries with
  | nil => by_cases hkey : key' = key <;> simp [setEntry, List.lookup_cons, hkey, beq_eq_decide]
  | cons entry entries ih =>
    obtain ⟨other, old⟩ := entry
    rw [setEntry]
    by_cases hother : other = key
    · subst hother
      by_cases hkey : key' = other <;> simp [List.lookup_cons, hkey, beq_eq_decide]
    · rw [if_neg hother, List.lookup_cons, List.lookup_cons, ih]
      by_cases hkey : key' = other
      · subst hkey
        simp [hother]
      · rw [beq_false_of_ne hkey]

theorem mem_map_fst_setEntry {key' : κ} :
    key' ∈ (setEntry entries key value).map Prod.fst ↔ key' = key ∨
    key' ∈ entries.map Prod.fst := by
  induction entries with
  | nil => simp [setEntry]
  | cons entry entries ih =>
    rw [setEntry]
    split
    · next h =>
        subst h
        simp
    · rw [List.map_cons, List.mem_cons, ih, List.map_cons, List.mem_cons, or_left_comm]

theorem nodup_setEntry (h : (entries.map Prod.fst).Nodup) :
    ((setEntry entries key value).map Prod.fst).Nodup := by
  induction entries with
  | nil => simp [setEntry]
  | cons entry entries ih =>
    rw [List.map_cons, List.nodup_cons] at h
    rw [setEntry]
    split
    · next hkey =>
        subst hkey
        rw [List.map_cons, List.nodup_cons]
        exact h
    · next hkey =>
        rw [List.map_cons, List.nodup_cons]
        refine ⟨fun hmem => ?_, ih h.2⟩
        rcases mem_map_fst_setEntry.mp hmem with heq | hmem
        · exact hkey heq
        · exact h.1 hmem

theorem lookup_eq_some_iff (h : (entries.map Prod.fst).Nodup) :
    entries.lookup key = some value ↔ (key, value) ∈ entries :=
  ⟨mem_of_lookup, lookup_of_mem_of_nodup h⟩

theorem mem_map_fst_iff_lookup :
    key ∈ entries.map Prod.fst ↔ ∃ value, entries.lookup key = some value := by
  induction entries with
  | nil => simp
  | cons entry entries ih =>
    obtain ⟨other, old⟩ := entry
    rw [List.map_cons, List.mem_cons, List.lookup_cons]
    by_cases hkey : key = other
    · simp [hkey]
    · rw [beq_false_of_ne hkey, ← ih]
      simp [hkey]

/-- `entries.setdefault(key, value)` -/
def setDefault (entries : List (κ × ν)) (key : κ) (value : ν) : List (κ × ν) :=
  if (entries.lookup key).isSome then entries else entries ++ [(key, value)]

theorem lookup_append (entries entries' : List (κ × ν)) (key : κ) :
    (entries ++ entries').lookup key = (entries.lookup key).or (entries'.lookup key) := by
  induction entries with
  | nil => rfl
  | cons entry entries ih =>
    obtain ⟨other, old⟩ := entry
    rw [List.cons_append, List.lookup_cons, List.lookup_cons]
    cases key == other with
    | true => rfl
    | false => exact ih

theorem lookup_setDefault (entries : List (κ × ν)) (key key' : κ) (value : ν) :
    (setDefault entries key value).lookup key' =
      (entries.lookup key').or (if key' = key then some value else none) := by
  unfold setDefault
  split
  · next hsome =>
      by_cases hkey : key' = key
      · rw [hkey, Option.or_of_isSome hsome]
      · rw [if_neg hkey, Option.or_none]
  · rw [lookup_append]
    by_cases hkey : key' = key
    · simp [hkey]
    · rw [if_neg hkey, List.lookup_cons, beq_false_of_ne hkey]
      rfl

theorem nodup_setDefault (h : (entries.map Prod.fst).Nodup) :
    ((setDefault entries key value).map Prod.fst).Nodup := by
  unfold setDefault
  split
  · exact h
  · next hnone =>
      rw [List.map_append, List.map_singleton]
      refine List.Nodup.append h (List.nodup_singleton key) ?_
      rw [List.disjoint_singleton]
      intro hmem
      obtain ⟨old, hold⟩ := mem_map_fst_iff_lookup.mp hmem
      exact hnone (by rw [hold]; rfl)

section Fold

variable {α : Type} (keyOf : α → κ) (valueOf : α → ν)

/-- The first default set for a key stays. -/
theorem lookup_foldl_setDefault (xs : List α) (entries : List (κ × ν)) (key : κ) :
    (xs.foldl (fun es x => setDefault es (keyOf x) (valueOf x)) entries).lookup key =
      (entries.lookup key).or ((xs.find? fun x => keyOf x = key).map valueOf) := by
  induction xs generalizing entries with
  | nil => exact Option.or_none.symm
  | cons x xs ih =>
    rw [List.foldl_cons, ih, lookup_setDefault, Option.or_assoc]
    congr 1
    by_cases hkey : key = keyOf x
    · rw [if_pos hkey, List.find?_cons_of_pos (by simpa using hkey.symm)]
      rfl
    · rw [if_neg hkey, List.find?_cons_of_neg (by simpa using fun h => hkey h.symm)]
      rfl

theorem nodup_foldl_setDefault (xs : List α) {entries : List (κ × ν)}
    (h : (entries.map Prod.fst).Nodup) :
    ((xs.foldl (fun es x => setDefault es (keyOf x) (valueOf x)) entries).map Prod.fst).Nodup := by
  induction xs generalizing entries with
  | nil => exact h
  | cons x xs ih => exact ih (nodup_setDefault h)

/-- The last value set for a key stays. -/
theorem lookup_foldl_setEntry (xs : List α) (entries : List (κ × ν)) (key : κ) :
    (xs.foldl (fun es x => setEntry es (keyOf x) (valueOf x)) entries).lookup key =
      ((xs.reverse.find? fun x => keyOf x = key).map valueOf).or (entries.lookup key) := by
  induction xs generalizing entries with
  | nil => rfl
  | cons x xs ih =>
    rw [List.foldl_cons, ih, lookup_setEntry, List.reverse_cons, List.find?_append]
    cases hfind : xs.reverse.find? fun x => keyOf x = key with
    | some y => rfl
    | none =>
      by_cases hkey : key = keyOf x
      · rw [if_pos hkey, List.find?_cons_of_pos (by simpa using hkey.symm)]
        rfl
      · rw [if_neg hkey, List.find?_cons_of_neg (by simpa using fun h => hkey h.symm)]
        rfl

theorem nodup_foldl_setEntry (xs : List α) {entries : List (κ × ν)}
    (h : (entries.map Prod.fst).Nodup) :
    ((xs.foldl (fun es x => setEntry es (keyOf x) (valueOf x)) entries).map Prod.fst).Nodup := by
  induction xs generalizing entries with
  | nil => exact h
  | cons x xs ih => exact ih (nodup_setEntry h)

/-- The entries of a dictionary filled with defaults: for each key the first value. -/
theorem mem_foldl_setDefault {xs : List α} :
    (key, value) ∈ xs.foldl (fun es x => setDefault es (keyOf x) (valueOf x)) [] ↔
      ∃ x, (xs.find? fun x => keyOf x = key) = some x ∧ valueOf x = value := by
  have hempty : (([] : List (κ × ν)).map Prod.fst).Nodup := List.nodup_nil
  have hnodup := nodup_foldl_setDefault keyOf valueOf xs hempty
  rw [← lookup_eq_some_iff hnodup, lookup_foldl_setDefault]
  exact Option.map_eq_some_iff

/-- The entries of a dictionary that is written to: for each key the last value. -/
theorem mem_foldl_setEntry {xs : List α} :
    (key, value) ∈ xs.foldl (fun es x => setEntry es (keyOf x) (valueOf x)) [] ↔
      ∃ x, (xs.reverse.find? fun x => keyOf x = key) = some x ∧ valueOf x = value := by
  have hempty : (([] : List (κ × ν)).map Prod.fst).Nodup := List.nodup_nil
  have hnodup := nodup_foldl_setEntry keyOf valueOf xs hempty
  rw [← lookup_eq_some_iff hnodup, lookup_foldl_setEntry]
  show Option.or _ none = _ ↔ _
  rw [Option.or_none]
  exact Option.map_eq_some_iff

end Fold

end AtlasDb.Lib
