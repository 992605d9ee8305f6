import Mathlib.Order.CountableDenseLinearOrder

/-!
# Bounds

Finitely many bounds on an element of a dense order without ends can be met together as soon as each
lower bound can be met with each upper bound, also beside finitely many elements to avoid, unless
two inclusive bounds leave one element only (`exists_within`). A bound carries whether it is
inclusive.
-/

namespace AtlasDb.Lib

section Bounds

variable {α : Type} [LinearOrder α]

/-- The element is above the bound, or at it when it is inclusive. -/
def Above (x : α) (bound : α × Bool) : Prop := bound.1 < x ∨ bound.1 = x ∧ bound.2 = true

/-- The element is below the bound, or at it when it is inclusive. -/
def Below (x : α) (bound : α × Bool) : Prop := x < bound.1 ∨ x = bound.1 ∧ bound.2 = true

/-- A lower and an upper bound that some element is between. -/
def Compatible (lower upper : α × Bool) : Prop :=
  lower.1 < upper.1 ∨ lower.1 = upper.1 ∧ lower.2 = true ∧ upper.2 = true

variable [DenselyOrdered α] [NoMinOrder α] [NoMaxOrder α] [Nonempty α]

/-- Between finite sets that are apart there is room beside any finite list. -/
theorem exists_between_avoiding (avoided : List α) (lower upper : Finset α)
    (hapart : ∀ l ∈ lower, ∀ u ∈ upper, l < u) :
    ∃ x, (∀ l ∈ lower, l < x) ∧ (∀ u ∈ upper, x < u) ∧ x ∉ avoided := by
  induction avoided generalizing upper with
  | nil =>
    obtain ⟨x, hlower, hupper⟩ := Order.exists_between_finsets lower upper hapart
    exact ⟨x, hlower, hupper, List.not_mem_nil⟩
  | cons a avoided ih =>
    obtain ⟨x, hlower, hupper, hx⟩ := ih upper hapart
    by_cases ha : x = a
    · -- the element to avoid becomes an upper bound
      obtain ⟨y, hlower', hupper', hy⟩ := ih (insert x upper) fun l hl u hu => by
        rcases Finset.mem_insert.mp hu with rfl | hu
        · exact hlower l hl
        · exact hapart l hl u hu
      have hyx : y < x := hupper' x (Finset.mem_insert_self x upper)
      refine ⟨y, hlower', fun u hu => hupper' u (Finset.mem_insert_of_mem hu), fun hmem => ?_⟩
      rcases List.mem_cons.mp hmem with rfl | hmem
      · exact hyx.ne ha.symm
      · exact hy hmem
    · refine ⟨x, hlower, hupper, fun hmem => ?_⟩
      exact (List.mem_cons.mp hmem).elim ha hx

/-- Bounds that are met in pairs are met together. -/
theorem exists_within {lowers uppers : List (α × Bool)} {avoided : List α}
    (hpairs : ∀ l ∈ lowers, ∀ u ∈ uppers, Compatible l u)
    (hroom : ∀ x ∈ avoided, (x, true) ∈ lowers → (x, true) ∉ uppers) :
    ∃ x, (∀ l ∈ lowers, Above x l) ∧ (∀ u ∈ uppers, Below x u) ∧ x ∉ avoided := by
  by_cases hpoint : ∃ x, (x, true) ∈ lowers ∧ (x, true) ∈ uppers
  · obtain ⟨x, hlower, hupper⟩ := hpoint
    refine ⟨x, fun l hl => ?_, fun u hu => ?_, fun hx => hroom x hx hlower hupper⟩
    · exact (hpairs l hl _ hupper).imp id fun h => ⟨h.1, h.2.1⟩
    · exact (hpairs _ hlower u hu).imp id fun h => ⟨h.1, h.2.2⟩
  · obtain ⟨x, hlower, hupper, hx⟩ := exists_between_avoiding avoided
      (lowers.map Prod.fst).toFinset (uppers.map Prod.fst).toFinset (by
        intro l hl u hu
        obtain ⟨⟨y, inclusive⟩, hlower, rfl⟩ := List.mem_map.mp (List.mem_toFinset.mp hl)
        obtain ⟨⟨z, inclusive'⟩, hupper, rfl⟩ := List.mem_map.mp (List.mem_toFinset.mp hu)
        rcases hpairs _ hlower _ hupper with hlt | ⟨heq, hinclusive, hinclusive'⟩
        · exact hlt
        · obtain rfl : y = z := heq
          obtain rfl : inclusive = true := hinclusive
          obtain rfl : inclusive' = true := hinclusive'
          exact absurd ⟨y, hlower, hupper⟩ hpoint)
    refine ⟨x, fun l hl => .inl (hlower _ ?_), fun u hu => .inl (hupper _ ?_), hx⟩
    · exact List.mem_toFinset.mpr (List.mem_map_of_mem hl)
    · exact List.mem_toFinset.mpr (List.mem_map_of_mem hu)

end Bounds

end AtlasDb.Lib
