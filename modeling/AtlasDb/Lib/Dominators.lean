import AtlasDb.Lib.Search

/-!
# Dominators

`m` dominates `n` when every path from the start to `n` goes through `m`. The dominators of a node
form a chain (`Dominates.comparable`), so every node that can be reached has an immediate one;
`immediateDominator` computes it for a list of edges.
-/

namespace AtlasDb.Lib

variable {V : Type}

/-- A path from `a` to `b` that `m` does not occur on, except possibly as its end. -/
def ReachesBefore (edge : V → V → Prop) (m a b : V) : Prop :=
  Relation.ReflTransGen (fun x y => edge x y ∧ x ≠ m) a b

def Dominates (edge : V → V → Prop) (start m n : V) : Prop :=
  m = n ∨ ¬ ReachesBefore edge m start n

/-- The dictionary gives the immediate dominator of every node that can be reached, the start apart,
and has no entry for the others. For the start it may have the start itself, an empty entry or
none. -/
structure DominatorDict (edge : V → V → Prop) (start : V) (dict : V → Option (Option V)) :
    Prop where
  start_eq : dict start = some (some start) ∨ dict start = some none ∨ dict start = none
  reachable : ∀ n, n ≠ start → Relation.ReflTransGen edge start n →
    ∃ d, dict n = some (some d) ∧ d ≠ n ∧ Dominates edge start d n ∧
      ∀ d', d' ≠ n → Dominates edge start d' n → Dominates edge start d' d
  unreachable : ∀ n, ¬ Relation.ReflTransGen edge start n → dict n = none

variable {edge : V → V → Prop} {start : V}

theorem Dominates.refl (n : V) : Dominates edge start n n := .inl rfl

/-- A path that avoids `m` up to its end can be cut at the first occurrence of `d`. -/
theorem reachesBefore_of_reaches {m d b : V} (h : ReachesBefore edge m start b) :
    ReachesBefore edge d start b ∨ ReachesBefore edge m start d := by
  induction h with
  | refl => exact .inl .refl
  | @tail x y hpath hstep ih =>
    rcases ih with ih | ih
    · by_cases hx : x = d
      · subst hx
        exact .inr hpath
      · exact .inl (.tail ih ⟨hstep.1, hx⟩)
    · exact .inr ih

theorem Dominates.trans {m d n : V} (hmd : Dominates edge start m d)
    (hdn : Dominates edge start d n) : Dominates edge start m n := by
  by_cases hmn : m = n
  · exact .inl hmn
  refine .inr fun hpath => ?_
  rcases hdn with rfl | hdn
  · rcases hmd with rfl | hmd
    · exact hmn rfl
    · exact hmd hpath
  -- the path to `n` goes through `d`, so a part of it reaches `d` and avoids `m`
  · rcases reachesBefore_of_reaches (d := d) hpath with h | h
    · exact hdn h
    · rcases hmd with rfl | hmd
      · exact hdn hpath
      · exact hmd h

/-! ## Dominators form a chain -/

/-- On the way to `n` one of two nodes comes last. -/
theorem reaches_from_last {m d x n : V} (hmd : m ≠ d) (h : Relation.ReflTransGen edge x n) :
    ReachesBefore edge m x n ∧ ReachesBefore edge d x n ∨
      ReachesBefore edge d m n ∨ ReachesBefore edge m d n := by
  induction h using Relation.ReflTransGen.head_induction_on with
  | refl => exact .inl ⟨.refl, .refl⟩
  | @head x y hstep _ ih =>
    rcases ih with ih | ih | ih
    · by_cases hm : x = m
      · subst hm
        exact .inr (.inl (.head ⟨hstep, hmd⟩ ih.2))
      by_cases hd : x = d
      · subst hd
        exact .inr (.inr (.head ⟨hstep, hmd.symm⟩ ih.1))
      · exact .inl ⟨.head ⟨hstep, hm⟩ ih.1, .head ⟨hstep, hd⟩ ih.2⟩
    · exact .inr (.inl ih)
    · exact .inr (.inr ih)

/-- Of two dominators of a node that can be reached one dominates the other. -/
theorem Dominates.comparable {m d n : V} (hn : Relation.ReflTransGen edge start n)
    (hm : Dominates edge start m n) (hd : Dominates edge start d n) :
    Dominates edge start m d ∨ Dominates edge start d m := by
  rcases hm with rfl | hm
  · exact .inr hd
  rcases hd with rfl | hd
  · exact .inl (.inr hm)
  by_contra hneither
  simp only [Dominates, not_or, not_not] at hneither
  obtain ⟨⟨hne, hpathd⟩, -, hpathm⟩ := hneither
  rcases reaches_from_last hne hn with h | h | h
  · exact hm h.1
  · exact hd (hpathm.trans h)
  · exact hm (hpathd.trans h)

/-- A list compared by a total relation has a last element. -/
theorem exists_greatest {r : V → V → Prop} (htrans : ∀ {a b c}, r a b → r b c → r a c)
    (hrefl : ∀ a, r a a) {xs : List V} (hne : xs ≠ [])
    (htotal : ∀ a ∈ xs, ∀ b ∈ xs, r a b ∨ r b a) :
    ∃ x ∈ xs, ∀ y ∈ xs, r y x := by
  induction xs with
  | nil => exact absurd rfl hne
  | cons a xs ih =>
    cases xs with
    | nil => exact ⟨a, List.mem_singleton.mpr rfl, by simpa using hrefl a⟩
    | cons b xs =>
      obtain ⟨x, hx, hgreatest⟩ := ih (by simp) fun a ha b hb =>
        htotal a (List.mem_cons_of_mem _ ha) b (List.mem_cons_of_mem _ hb)
      rcases htotal a List.mem_cons_self x (List.mem_cons_of_mem _ hx) with hax | hxa
      · refine ⟨x, List.mem_cons_of_mem _ hx, fun y hy => ?_⟩
        rcases List.mem_cons.mp hy with rfl | hy
        · exact hax
        · exact hgreatest y hy
      · refine ⟨a, List.mem_cons_self, fun y hy => ?_⟩
        rcases List.mem_cons.mp hy with rfl | hy
        · exact hrefl _
        · exact htrans (hgreatest y hy) hxa

/-! ## Computing the dictionary -/

variable [DecidableEq V]

section Edges

variable (edges : List (V × V))

/-- The relation a list of edges stands for. -/
def EdgeIn (a b : V) : Prop := (a, b) ∈ edges

/-- The nodes that can be reached from `a` when nothing is followed out of the nodes `stop`. -/
def reachedBefore (stop : V → Bool) (a : V) : List V :=
  search (fun x => if stop x then [] else (edges.filter (·.1 = x)).map Prod.snd)
    ((edges.length + 1) * edges.length + 1) [a] []

theorem mem_reachedBefore {stop : V → Bool} {a b : V} :
    b ∈ reachedBefore edges stop a ↔
      Relation.ReflTransGen (fun x y => EdgeIn edges x y ∧ stop x = false) a b := by
  let next := fun x => if stop x then [] else (edges.filter (·.1 = x)).map Prod.snd
  let domain := (a :: edges.map Prod.snd).toFinset
  have hnext : ∀ {x y}, y ∈ next x ↔ EdgeIn edges x y ∧ stop x = false := by
    intro x y
    simp only [next, EdgeIn]
    cases stop x with
    | true => simp
    | false => simp
  have hlength : ∀ x, (next x).length ≤ edges.length := by
    intro x
    simp only [next]
    split
    · exact Nat.zero_le _
    · simpa using List.length_filter_le _ edges
  have hcard : domain.card ≤ edges.length + 1 := by
    have h := List.toFinset_card_le (a :: edges.map Prod.snd)
    simpa [domain] using h
  have hclosed : ∀ x ∈ domain, ∀ y ∈ next x, y ∈ domain := by
    intro x _ y hy
    have hedge := (hnext.mp hy).1
    simp only [domain, List.mem_toFinset]
    exact List.mem_cons_of_mem _ (List.mem_map.mpr ⟨_, hedge, rfl⟩)
  have hstart : a ∈ domain := by simp [domain]
  have hsearch := mem_search_iff (x := b) domain hclosed hstart
    (pendingTurns_start_le hcard hlength)
  simp only [hnext] at hsearch
  exact hsearch

/-- Whether `m` dominates `n`. -/
def dominatesIn (start m n : V) : Bool :=
  m = n || n ∉ reachedBefore edges (· = m) start

theorem dominatesIn_iff {start m n : V} :
    dominatesIn edges start m n = true ↔ Dominates (EdgeIn edges) start m n := by
  simp [dominatesIn, Dominates, ReachesBefore, mem_reachedBefore]

/-- The immediate dominator of a node that can be reached; the start has none. -/
def immediateDominator (start n : V) : Option (Option V) :=
  if n = start then some none
  else if n ∉ reachedBefore edges (fun _ => false) start then none
  else
    let proper := (start :: edges.map Prod.snd).filter fun d => d ≠ n && dominatesIn edges start d n
    some (proper.find? fun d => proper.all fun d' => dominatesIn edges start d' d)

/-- The dictionary is one of immediate dominators. -/
theorem immediateDominator_spec (start : V) :
    DominatorDict (EdgeIn edges) start (immediateDominator edges start) where
  start_eq := .inr (.inl (if_pos rfl))
  unreachable n hn := by
    have hstart : n ≠ start := by
      rintro rfl
      exact hn .refl
    have hmem : n ∉ reachedBefore edges (fun _ => false) start := by
      simpa [mem_reachedBefore] using hn
    simp [immediateDominator, hstart, hmem]
  reachable n hstart hn := by
    have hmem : n ∈ reachedBefore edges (fun _ => false) start := by
      simpa [mem_reachedBefore] using hn
    let proper := (start :: edges.map Prod.snd).filter fun d => d ≠ n && dominatesIn edges start d n
    -- a node that is on no edge dominates nothing that can be reached
    have hproper : ∀ {d}, d ∈ proper ↔ d ≠ n ∧ Dominates (EdgeIn edges) start d n := by
      intro d
      simp only [proper, List.mem_filter, Bool.and_eq_true, decide_eq_true_eq, dominatesIn_iff]
      refine ⟨And.right, fun h => ⟨?_, h⟩⟩
      by_contra hout
      refine h.2.elim h.1 fun hpath => hpath ?_
      have hstay : ∀ {x}, Relation.ReflTransGen (EdgeIn edges) start x →
          ReachesBefore (EdgeIn edges) d start x ∧ x ∈ start :: edges.map Prod.snd := by
        intro x hx
        induction hx with
        | refl => exact ⟨.refl, List.mem_cons_self⟩
        | @tail x y _ hstep ih =>
          refine ⟨.tail ih.1 ⟨hstep, ?_⟩, ?_⟩
          · rintro rfl
            exact hout ih.2
          · exact List.mem_cons_of_mem _ (List.mem_map.mpr ⟨_, hstep, rfl⟩)
      exact (hstay hn).1
    have hstartDom : Dominates (EdgeIn edges) start start n := by
      refine .inr fun hpath => ?_
      rcases Relation.ReflTransGen.cases_head hpath with h | ⟨_, h, -⟩
      · exact hstart h.symm
      · exact h.2 rfl
    have hne : proper ≠ [] := List.ne_nil_of_mem (hproper.mpr ⟨hstart.symm, hstartDom⟩)
    obtain ⟨greatest, hgreatest, hall⟩ := exists_greatest
      (r := Dominates (EdgeIn edges) start) (fun h h' => h.trans h') .refl hne
      fun a ha b hb => (hproper.mp ha).2.comparable hn (hproper.mp hb).2
    have hfound : (proper.find? fun d => proper.all fun d' =>
      dominatesIn edges start d' d).isSome := by
      refine List.find?_isSome.mpr ⟨greatest, hgreatest, List.all_eq_true.mpr fun d' hd' => ?_⟩
      exact (dominatesIn_iff edges).mpr (hall d' hd')
    obtain ⟨d, hd⟩ := Option.isSome_iff_exists.mp hfound
    have hd' := hproper.mp (List.mem_of_find?_eq_some hd)
    refine ⟨d, ?_, hd'.1, hd'.2, fun d' hne' hdom => ?_⟩
    · rw [immediateDominator, if_neg hstart, if_neg (not_not_intro hmem)]
      exact congrArg some hd
    · have hfirst : proper.all (fun d' => dominatesIn edges start d' d) = true := by
        have h := List.find?_some hd
        exact h
      exact (dominatesIn_iff edges).mp (List.all_eq_true.mp hfirst d' (hproper.mpr ⟨hne', hdom⟩))

end Edges

end AtlasDb.Lib
