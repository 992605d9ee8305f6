import Mathlib.Data.Fintype.Pigeonhole
import Mathlib.Data.List.Perm.Basic
import Mathlib.Data.List.Nodup
import Mathlib.Logic.Relation

/-!
# Ordering by layers

`layers sort fuel entries` takes the keys without open dependencies, in sorted order, drops them
from the dependencies of the others and goes on. If it never gets stuck the result lists every key
once and a key after everything it depends on. What it lists in any case are the keys from which no
cycle of dependencies can be reached (`mem_layers_iff`), and it gets stuck if there is a cycle
(`layers_stuck_iff`). `takeLayers` is the loop that drops the keys one at a time.
-/

namespace AtlasDb.Lib

variable {α : Type} [DecidableEq α]

/-- The keys with nothing left to wait for. -/
def readyKeys (entries : List (α × List α)) : List α :=
  (entries.filter (·.2 = [])).map Prod.fst

/-- The other entries, waiting for the rest. -/
def stillWaiting (done : List α) (entries : List (α × List α)) : List (α × List α) :=
  (entries.filter (·.2 ≠ [])).map fun e => (e.1, e.2.filter (· ∉ done))

/-- The keys in order, and whether the rest waits for each other. -/
def layers (sort : List α → List α) : Nat → List (α × List α) → List α × Bool
  | 0, entries => ([], entries ≠ [])
  | fuel + 1, entries =>
    if entries = [] then ([], false)
    else
      let ready := sort (readyKeys entries)
      if ready = [] then ([], true)
      else
        let (rest, stuck) := layers sort fuel (stillWaiting ready entries)
        (ready ++ rest, stuck)

section

variable {sort : List α → List α} {entries : List (α × List α)}

theorem perm_ready_waiting (hsort : ∀ keys, (sort keys).Perm keys) :
    (entries.map Prod.fst).Perm
      (sort (readyKeys entries) ++
        (stillWaiting (sort (readyKeys entries)) entries).map Prod.fst) := by
  have hkeys : (stillWaiting (sort (readyKeys entries)) entries).map Prod.fst =
      (entries.filter (·.2 ≠ [])).map Prod.fst := by
    simp [stillWaiting, Function.comp_def]
  rw [hkeys]
  refine List.Perm.trans ?_ ((hsort (readyKeys entries)).symm.append_right _)
  have hsplit := (List.filter_append_perm (fun e : α × List α => decide (e.2 = [])) entries).symm
  rw [readyKeys, ← List.map_append]
  refine List.Perm.map _ (hsplit.trans ?_)
  exact .of_eq (by simp)

theorem layers_perm (hsort : ∀ keys, (sort keys).Perm keys) {fuel : Nat}
    (hfree : (layers sort fuel entries).2 = false) :
    (layers sort fuel entries).1.Perm (entries.map Prod.fst) := by
  induction fuel generalizing entries with
  | zero =>
    have hnil : entries = [] := by simpa [layers] using hfree
    simp [layers, hnil]
  | succ fuel ih =>
    rw [layers] at hfree ⊢
    by_cases hnil : entries = []
    · simp [hnil]
    · rw [if_neg hnil] at hfree ⊢
      dsimp only at hfree ⊢
      by_cases hready : sort (readyKeys entries) = []
      · simp [hready] at hfree
      · rw [if_neg hready] at hfree ⊢
        exact ((ih hfree).append_left _).trans (perm_ready_waiting hsort).symm

/-- One turn per entry is enough. -/
theorem layers_fuel (hsort : ∀ keys, (sort keys).Perm keys) {fuel : Nat}
    (hfuel : entries.length ≤ fuel) :
    layers sort (fuel + 1) entries = layers sort fuel entries := by
  induction fuel generalizing entries with
  | zero =>
    have hnil : entries = [] := List.length_eq_zero_iff.mp (Nat.le_zero.mp hfuel)
    simp [layers, hnil]
  | succ fuel ih =>
    rw [layers, layers]
    by_cases hnil : entries = []
    · rw [if_pos hnil, if_pos hnil]
    · by_cases hready : sort (readyKeys entries) = []
      · simp only [if_neg hnil, if_pos hready]
      · have hshorter : (stillWaiting (sort (readyKeys entries)) entries).length ≤ fuel := by
          have hlength := (@perm_ready_waiting α _ sort entries hsort).length_eq
          have hpos := List.length_pos_iff.mpr hready
          simp only [List.length_map, List.length_append] at hlength
          omega
        simp only [if_neg hnil, if_neg hready]
        rw [ih hshorter]

theorem layers_fuel_le (hsort : ∀ keys, (sort keys).Perm keys) {fuel more : Nat}
    (hfuel : entries.length ≤ fuel) (hmore : fuel ≤ more) :
    layers sort more entries = layers sort fuel entries := by
  induction hmore with
  | refl => rfl
  | step hle ih => rw [layers_fuel hsort (Nat.le_trans hfuel hle), ih]

/-- An entry that still waits for something. -/
theorem mem_stillWaiting {done deps : List α} {key dep : α} (hkey : (key, deps) ∈ entries)
    (hdep : dep ∈ deps) : (key, deps.filter (· ∉ done)) ∈ stillWaiting done entries := by
  refine List.mem_map.mpr ⟨(key, deps), List.mem_filter.mpr ⟨hkey, ?_⟩, rfl⟩
  simpa using List.ne_nil_of_mem hdep

omit [DecidableEq α] in
/-- A ready key has no dependencies. -/
theorem deps_of_ready (hnodup : (entries.map Prod.fst).Nodup) {deps : List α} {key : α}
    (hkey : (key, deps) ∈ entries) (hready : key ∈ readyKeys entries) : deps = [] := by
  obtain ⟨⟨other, open_⟩, hmem, hother⟩ := List.mem_map.mp hready
  obtain ⟨hentry, hnone⟩ := List.mem_filter.mp hmem
  have hsame : (key, deps) = (other, open_) :=
    List.inj_on_of_nodup_map hnodup hkey hentry hother.symm
  have hdeps : deps = open_ := (Prod.mk.inj hsame).2
  rw [hdeps]
  simpa using hnone

/-- A key comes after everything it depends on. -/
theorem layers_before (hsort : ∀ keys, (sort keys).Perm keys) {fuel : Nat}
    (hnodup : (entries.map Prod.fst).Nodup)
    {before after deps : List α} {key dep : α}
    (hsplit : (layers sort fuel entries).1 = before ++ key :: after) (hkey : (key, deps) ∈ entries)
    (hdep : dep ∈ deps) : dep ∈ before := by
  induction fuel generalizing entries before deps with
  | zero => simp [layers] at hsplit
  | succ fuel ih =>
    have hperm := @perm_ready_waiting α _ sort entries hsort
    rw [layers] at hsplit
    by_cases hnil : entries = []
    · simp [hnil] at hkey
    · rw [if_neg hnil] at hsplit
      dsimp only at hsplit
      by_cases hready : sort (readyKeys entries) = []
      · simp [hready] at hsplit
      · rw [if_neg hready] at hsplit
        have hlater : key ∉ sort (readyKeys entries) := by
          intro hmem
          rw [deps_of_ready hnodup hkey ((hsort _).mem_iff.mp hmem)] at hdep
          cases hdep
        -- so the key is in a later layer, and the first layer is before it
        obtain ⟨inner, rfl, hrest⟩ : ∃ inner, before = sort (readyKeys entries) ++ inner ∧
            (layers sort fuel (stillWaiting (sort (readyKeys entries)) entries)).1 =
              inner ++ key :: after := by
          rcases List.append_eq_append_iff.mp hsplit
            with ⟨inner, hbefore, hrest⟩ | ⟨inner, hin, hrest⟩
          · exact ⟨inner, hbefore, hrest⟩
          · cases inner with
            | nil => exact ⟨[], by simpa using hin.symm, by simpa using hrest.symm⟩
            | cons first inner =>
              obtain rfl : key = first := (List.cons.inj hrest).1
              exact absurd (by rw [hin]; simp) hlater
        by_cases hdone : dep ∈ sort (readyKeys entries)
        · exact List.mem_append_left _ hdone
        · have hwaiting := @mem_stillWaiting α _ entries (sort (readyKeys entries)) _ _ _ hkey hdep
          refine List.mem_append_right _ (ih ?_ hrest hwaiting ?_)
          · exact (List.nodup_append.mp (hperm.nodup_iff.mp hnodup)).2.1
          · exact List.mem_filter.mpr ⟨hdep, by simpa using hdone⟩

/-! ## Cycles -/

/-- `key` waits for `dep`. -/
def Needs (entries : List (α × List α)) (key dep : α) : Prop :=
  ∃ deps, (key, deps) ∈ entries ∧ dep ∈ deps

omit [DecidableEq α] in
theorem Needs.mem_keys {key dep : α} (h : Needs entries key dep) : key ∈ entries.map Prod.fst := by
  obtain ⟨deps, hmem, -⟩ := h
  exact List.mem_map.mpr ⟨(key, deps), hmem, rfl⟩

theorem needs_of_stillWaiting {done : List α} {key dep : α}
    (h : Needs (stillWaiting done entries) key dep) : Needs entries key dep := by
  obtain ⟨_, hmem, hdep⟩ := h
  obtain ⟨⟨key', deps⟩, hentry, heq⟩ := List.mem_map.mp hmem
  obtain ⟨rfl, rfl⟩ := Prod.mk.inj heq
  exact ⟨deps, (List.mem_filter.mp hentry).1, (List.mem_filter.mp hdep).1⟩

/-- Among finitely many elements that all have a successor there is a cycle behind each of them. -/
theorem exists_cycle {r : α → α → Prop} {xs : List α} (hnext : ∀ a ∈ xs, ∃ b ∈ xs, r a b) {a : α}
    (ha : a ∈ xs) : ∃ c, Relation.ReflTransGen r a c ∧ Relation.TransGen r c c := by
  have hnext' : ∀ a : {x // x ∈ xs}, ∃ b : {x // x ∈ xs}, r a b := fun a =>
    let ⟨b, hb, hr⟩ := hnext a a.2
    ⟨⟨b, hb⟩, hr⟩
  choose next hstep using hnext'
  let walk : Nat → {x // x ∈ xs} := fun n => next^[n] ⟨a, ha⟩
  have hwalk (i n : Nat) : Relation.ReflTransGen r (walk i : α) (walk (i + n)) := by
    induction n with
    | zero => exact .refl
    | succ n ih =>
      refine ih.tail ?_
      show r _ (next^[i + n + 1] _ : {x // x ∈ xs})
      rw [Function.iterate_succ_apply']
      exact hstep _
  -- the walk comes back to where it has been
  obtain ⟨i, j, hne, heq⟩ := Finite.exists_ne_map_eq_of_infinite walk
  have hreturn : ∀ i j, i < j → walk i = walk j → Relation.TransGen r (walk i : α) (walk i) := by
    intro i j hij heq
    obtain ⟨n, rfl⟩ := Nat.exists_eq_add_of_lt hij
    have hlast : r (walk (i + n) : α) (walk (i + n + 1)) := by
      show r _ (next^[i + n + 1] _ : {x // x ∈ xs})
      rw [Function.iterate_succ_apply']
      exact hstep _
    have hall := Relation.TransGen.tail' (hwalk i n) hlast
    rwa [← heq] at hall
  have hstart (n : Nat) : Relation.ReflTransGen r a (walk n) := by
    have := hwalk 0 n
    rwa [Nat.zero_add] at this
  rcases Nat.lt_or_gt_of_ne hne with hij | hij
  · exact ⟨_, hstart i, hreturn i j hij heq⟩
  · exact ⟨_, hstart j, hreturn j i hij heq.symm⟩

/-- From a key that is listed no chain of dependencies goes on forever. -/
theorem acc_of_mem_layers (hsort : ∀ keys, (sort keys).Perm keys) {fuel : Nat}
    (hnodup : (entries.map Prod.fst).Nodup) {key : α} (hkey : key ∈ (layers sort fuel entries).1) :
    Acc (fun dep key => Needs entries key dep) key := by
  obtain ⟨before, after, hsplit⟩ := List.append_of_mem hkey
  induction hlength : before.length using Nat.strongRecOn generalizing key before after with
  | _ n ih =>
    refine ⟨_, fun dep hneeds => ?_⟩
    obtain ⟨deps, hmem, hdep⟩ := hneeds
    obtain ⟨front, middle, hfront⟩ :=
      List.append_of_mem (layers_before hsort hnodup hsplit hmem hdep)
    have hsplit' : (layers sort fuel entries).1 = front ++ dep :: (middle ++ key :: after) := by
      rw [hsplit, hfront, List.append_assoc, List.cons_append]
    refine ih front.length ?_ ?_ front _ hsplit' rfl
    · rw [← hlength, hfront, List.length_append, List.length_cons]
      omega
    · rw [hsplit']
      exact List.mem_append_right _ List.mem_cons_self

/-- The keys that are not listed wait for each other. -/
theorem waiting_of_not_mem_layers (hsort : ∀ keys, (sort keys).Perm keys) {fuel : Nat}
    (hfuel : entries.length ≤ fuel) (hnodup : (entries.map Prod.fst).Nodup)
    (hclosed : ∀ key dep, Needs entries key dep → dep ∈ entries.map Prod.fst) {key : α}
    (hkey : key ∈ entries.map Prod.fst) (hout : key ∉ (layers sort fuel entries).1) :
    ∃ left : List α, key ∈ left ∧ ∀ a ∈ left, ∃ b ∈ left, Needs entries a b := by
  induction fuel generalizing entries with
  | zero =>
    have hnil : entries = [] := List.length_eq_zero_iff.mp (Nat.le_zero.mp hfuel)
    rw [hnil] at hkey
    cases hkey
  | succ fuel ih =>
    have hperm := @perm_ready_waiting α _ sort entries hsort
    rw [layers] at hout
    by_cases hnil : entries = []
    · rw [hnil] at hkey
      cases hkey
    rw [if_neg hnil] at hout
    dsimp only at hout
    by_cases hready : sort (readyKeys entries) = []
    -- no key is ready: every key that is left waits for another
    · refine ⟨entries.map Prod.fst, hkey, fun a ha => ?_⟩
      obtain ⟨⟨a, deps⟩, hmem, rfl⟩ := List.mem_map.mp ha
      cases deps with
      | nil =>
        have ha' : a ∈ sort (readyKeys entries) :=
          (hsort _).mem_iff.mpr
            (List.mem_map.mpr ⟨(a, []), List.mem_filter.mpr ⟨hmem, by simp⟩, rfl⟩)
        rw [hready] at ha'
        cases ha'
      | cons dep deps =>
        have hneeds : Needs entries a dep := ⟨_, hmem, List.mem_cons_self⟩
        exact ⟨dep, hclosed a dep hneeds, hneeds⟩
    · rw [if_neg hready] at hout
      have hout' := not_or.mp (fun h => hout (List.mem_append.mpr h))
      have hlength : (stillWaiting (sort (readyKeys entries)) entries).length ≤ fuel := by
        have hlength := hperm.length_eq
        have hpos := List.length_pos_iff.mpr hready
        simp only [List.length_map, List.length_append] at hlength
        omega
      have hwaiting : key ∈ (stillWaiting (sort (readyKeys entries)) entries).map Prod.fst :=
        (List.mem_append.mp (hperm.mem_iff.mp hkey)).resolve_left hout'.1
      have hclosed' : ∀ a dep, Needs (stillWaiting (sort (readyKeys entries)) entries) a dep →
          dep ∈ (stillWaiting (sort (readyKeys entries)) entries).map Prod.fst := by
        intro a dep hneeds
        have hdep := hperm.mem_iff.mp (hclosed a dep (needs_of_stillWaiting hneeds))
        refine (List.mem_append.mp hdep).resolve_left fun hdone => ?_
        obtain ⟨_, hmem, hdep'⟩ := hneeds
        obtain ⟨_, -, heq⟩ := List.mem_map.mp hmem
        rw [← (Prod.mk.inj heq).2, List.mem_filter] at hdep'
        simp [hdone] at hdep'
      obtain ⟨left, hleft, hnext⟩ :=
        ih hlength (List.nodup_append.mp (hperm.nodup_iff.mp hnodup)).2.1
        hclosed' hwaiting hout'.2
      refine ⟨left, hleft, fun a ha => ?_⟩
      obtain ⟨b, hb, hneeds⟩ := hnext a ha
      exact ⟨b, hb, needs_of_stillWaiting hneeds⟩

theorem mem_of_mem_layers (hsort : ∀ keys, (sort keys).Perm keys) {fuel : Nat} {key : α}
    (hkey : key ∈ (layers sort fuel entries).1) : key ∈ entries.map Prod.fst := by
  induction fuel generalizing entries with
  | zero => cases hkey
  | succ fuel ih =>
    rw [layers] at hkey
    by_cases hnil : entries = []
    · rw [if_pos hnil] at hkey
      cases hkey
    rw [if_neg hnil] at hkey
    dsimp only at hkey
    by_cases hready : sort (readyKeys entries) = []
    · rw [if_pos hready] at hkey
      cases hkey
    · rw [if_neg hready] at hkey
      exact (perm_ready_waiting hsort).mem_iff.mpr
        (List.mem_append.mpr ((List.mem_append.mp hkey).imp_right ih))

/-- If it gets stuck a key is not listed. -/
theorem exists_not_mem_of_stuck (hsort : ∀ keys, (sort keys).Perm keys) {fuel : Nat}
    (hnodup : (entries.map Prod.fst).Nodup) (hstuck : (layers sort fuel entries).2 = true) :
    ∃ key ∈ entries.map Prod.fst, key ∉ (layers sort fuel entries).1 := by
  induction fuel generalizing entries with
  | zero =>
    obtain ⟨entry, hentry⟩ := List.exists_mem_of_ne_nil entries (by simpa [layers] using hstuck)
    exact ⟨entry.1, List.mem_map.mpr ⟨entry, hentry, rfl⟩, List.not_mem_nil⟩
  | succ fuel ih =>
    have hperm := @perm_ready_waiting α _ sort entries hsort
    rw [layers] at hstuck ⊢
    by_cases hnil : entries = []
    · rw [if_pos hnil] at hstuck
      cases hstuck
    rw [if_neg hnil] at hstuck ⊢
    dsimp only at hstuck ⊢
    by_cases hready : sort (readyKeys entries) = []
    · rw [if_pos hready]
      obtain ⟨entry, hentry⟩ := List.exists_mem_of_ne_nil entries hnil
      exact ⟨entry.1, List.mem_map.mpr ⟨entry, hentry, rfl⟩, List.not_mem_nil⟩
    · rw [if_neg hready] at hstuck ⊢
      have hnodup' := List.nodup_append.mp (hperm.nodup_iff.mp hnodup)
      obtain ⟨key, hkey, hout⟩ := ih hnodup'.2.1 hstuck
      refine ⟨key, hperm.mem_iff.mpr (List.mem_append_right _ hkey), ?_⟩
      rw [List.mem_append, not_or]
      exact ⟨fun hdone => hnodup'.2.2 key hdone key hkey rfl, hout⟩

/-- **What is listed** are the keys from which no cycle can be reached. -/
theorem mem_layers_iff (hsort : ∀ keys, (sort keys).Perm keys) {fuel : Nat}
    (hfuel : entries.length ≤ fuel) (hnodup : (entries.map Prod.fst).Nodup)
    (hclosed : ∀ key dep, Needs entries key dep → dep ∈ entries.map Prod.fst) {key : α} :
    key ∈ (layers sort fuel entries).1 ↔ key ∈ entries.map Prod.fst ∧
      ¬ ∃ c, Relation.ReflTransGen (Needs entries) key c ∧
      Relation.TransGen (Needs entries) c c := by
  constructor
  · intro hkey
    refine ⟨mem_of_mem_layers hsort hkey, fun ⟨c, hreach, hcycle⟩ => ?_⟩
    have hreached : ∀ c, Relation.ReflTransGen (Needs entries) key c →
        Acc (fun dep key => Needs entries key dep) c := by
      intro c hreach
      induction hreach with
      | refl => exact acc_of_mem_layers hsort hnodup hkey
      | tail _ hstep ih => exact ih.inv hstep
    have hacc := hreached c hreach
    clear hreach
    -- the cycle could be followed forever
    induction hacc with
    | intro c _ ih =>
      obtain ⟨d, hstep, hback⟩ := Relation.TransGen.head'_iff.mp hcycle
      exact ih d hstep (.tail' hback hstep)
  · rintro ⟨hkey, hacyclic⟩
    by_contra hout
    obtain ⟨left, hleft, hnext⟩ := waiting_of_not_mem_layers hsort hfuel hnodup hclosed hkey hout
    exact hacyclic (exists_cycle hnext hleft)

/-- It gets stuck if there is a cycle. -/
theorem layers_stuck_iff (hsort : ∀ keys, (sort keys).Perm keys) {fuel : Nat}
    (hfuel : entries.length ≤ fuel) (hnodup : (entries.map Prod.fst).Nodup)
    (hclosed : ∀ key dep, Needs entries key dep → dep ∈ entries.map Prod.fst) :
    (layers sort fuel entries).2 = true ↔ ∃ c, Relation.TransGen (Needs entries) c c := by
  constructor
  · intro hstuck
    obtain ⟨key, hkey, hout⟩ := exists_not_mem_of_stuck hsort hnodup hstuck
    by_contra hacyclic
    refine hout ((mem_layers_iff hsort hfuel hnodup hclosed).mpr ⟨hkey, ?_⟩)
    rintro ⟨c, -, hcycle⟩
    exact hacyclic ⟨c, hcycle⟩
  · rintro ⟨c, hcycle⟩
    by_contra hfree
    rw [Bool.not_eq_true] at hfree
    obtain ⟨d, hstep, -⟩ := Relation.TransGen.head'_iff.mp hcycle
    have hlisted := (layers_perm hsort hfree).mem_iff.mpr hstep.mem_keys
    exact ((mem_layers_iff hsort hfuel hnodup hclosed).mp hlisted).2 ⟨c, .refl, hcycle⟩

/-! ## The loop -/

/-- The entries without a key: it is removed and nothing waits for it any more. -/
def discardKey (remaining : List (α × List α)) (key : α) : List (α × List α) :=
  (remaining.filter (·.1 ≠ key)).map fun e => (e.1, e.2.filter (· ≠ key))

/-- The loop that takes the ready keys until there are none, dropping one after the other from what
remains; `none` if it is not over after the given number of turns. -/
def takeLayers (sort : List α → List α) : Nat → List α → List (α × List α) →
    Option (List α × Bool)
  | 0, _, _ => none
  | turns + 1, ordered, remaining =>
    if remaining = [] then some (ordered, false)
    else
      let ready := sort (readyKeys remaining)
      if ready = [] then some (ordered, true)
      else takeLayers sort turns (ordered ++ ready) (ready.foldl discardKey remaining)

theorem foldl_discardKey (done : List α) (remaining : List (α × List α)) :
    done.foldl discardKey remaining =
      (remaining.filter (·.1 ∉ done)).map fun e => (e.1, e.2.filter (· ∉ done)) := by
  induction done generalizing remaining with
  | nil => simp
  | cons key done ih =>
    rw [List.foldl_cons, ih, discardKey, List.filter_map, List.filter_filter, List.map_map]
    refine congrArg₂ _ (funext fun e => ?_) (List.filter_congr fun e _ => ?_)
    · simp only [Function.comp_apply, List.filter_filter]
      refine congrArg _ (List.filter_congr fun dep _ => ?_)
      simp [Bool.and_comm]
    · simp [Bool.and_comm]

/-- Dropping the ready keys one after the other leaves the entries that are still waiting. -/
theorem foldl_discardKey_ready (hsort : ∀ keys, (sort keys).Perm keys)
    (hnodup : (entries.map Prod.fst).Nodup) :
    (sort (readyKeys entries)).foldl discardKey entries =
      stillWaiting (sort (readyKeys entries)) entries := by
  rw [foldl_discardKey, stillWaiting]
  refine congrArg _ (List.filter_congr fun e he => ?_)
  rw [decide_eq_decide, not_iff_not, (hsort _).mem_iff]
  constructor
  · exact fun hready => deps_of_ready hnodup he hready
  · exact fun hnone => List.mem_map.mpr ⟨e, List.mem_filter.mpr ⟨he, by simpa using hnone⟩, rfl⟩

/-- **The loop ends**, with the keys in their layers. -/
theorem takeLayers_eq (hsort : ∀ keys, (sort keys).Perm keys) {turns : Nat} {ordered : List α}
    (hturns : entries.length ≤ turns) (hnodup : (entries.map Prod.fst).Nodup) :
    takeLayers sort (turns + 1) ordered entries =
      some (ordered ++ (layers sort turns entries).1, (layers sort turns entries).2) := by
  induction turns generalizing ordered entries with
  | zero =>
    have hnil : entries = [] := List.length_eq_zero_iff.mp (Nat.le_zero.mp hturns)
    simp [takeLayers, layers, hnil]
  | succ turns ih =>
    rw [takeLayers, layers]
    by_cases hnil : entries = []
    · rw [if_pos hnil, if_pos hnil, List.append_nil]
    rw [if_neg hnil, if_neg hnil]
    dsimp only
    by_cases hready : sort (readyKeys entries) = []
    · rw [if_pos hready, if_pos hready, List.append_nil]
    · have hperm := @perm_ready_waiting α _ sort entries hsort
      have hlength : (stillWaiting (sort (readyKeys entries)) entries).length ≤ turns := by
        have hlength := hperm.length_eq
        have hpos := List.length_pos_iff.mpr hready
        simp only [List.length_map, List.length_append] at hlength
        omega
      rw [if_neg hready, if_neg hready, foldl_discardKey_ready hsort hnodup,
        ih hlength (List.nodup_append.mp (hperm.nodup_iff.mp hnodup)).2.1, List.append_assoc]

end

end AtlasDb.Lib
