import Mathlib.Data.List.Induction

/-!
# Hash chains

A log of rows in which every row names the digest of the row before it. `verify` is the usual
checker: it walks the rows with the digest of the last one seen and stops at the first row that does
not check. `Linked` is what it decides, and appending a row that checks against the last digest
keeps it (`linked_append_singleton`), so an append-only log verifies for ever.
-/

namespace AtlasDb.Lib.HashChain

variable {ρ δ ε : Type} (digest : ρ → δ) (check : Option δ → ρ → Except ε Bool)

/-- Walk the chain; `previous` is the digest of the row before the first one. -/
def verify : Option δ → List ρ → Except ε Bool
  | _, [] => .ok true
  | previous, row :: rows => do
      if ← check previous row then verify (some (digest row)) rows else .ok false

/-- Every row checks against its predecessor. -/
def Linked : Option δ → List ρ → Prop
  | _, [] => True
  | previous, row :: rows => check previous row = .ok true ∧ Linked (some (digest row)) rows

/-- The digest the next row has to name. -/
def lastDigest : Option δ → List ρ → Option δ
  | previous, [] => previous
  | _, row :: rows => lastDigest (some (digest row)) rows

variable {digest check}

theorem verify_eq_ok_true_iff {previous : Option δ} {rows : List ρ} :
    verify digest check previous rows = .ok true ↔ Linked digest check previous rows := by
  induction rows generalizing previous with
  | nil => simp [verify, Linked]
  | cons row rows ih =>
    simp only [verify, Linked]
    cases h : check previous row with
    | error e => simp [bind, Except.bind]
    | ok b =>
      cases b with
      | true => simpa [bind, Except.bind] using ih
      | false => simp [bind, Except.bind]

theorem lastDigest_append_singleton (previous : Option δ) (rows : List ρ) (row : ρ) :
    lastDigest digest previous (rows ++ [row]) = some (digest row) := by
  induction rows generalizing previous with
  | nil => rfl
  | cons r rows ih => exact ih _

/-- **Appending** a row that checks against the last digest keeps the chain linked. -/
theorem linked_append_singleton {previous : Option δ} {rows : List ρ} {row : ρ}
    (h : Linked digest check previous rows)
    (hrow : check (lastDigest digest previous rows) row = .ok true) :
    Linked digest check previous (rows ++ [row]) := by
  induction rows generalizing previous with
  | nil => exact ⟨hrow, trivial⟩
  | cons r rows ih => exact ⟨h.1, ih h.2 hrow⟩

theorem linked_of_append_singleton {previous : Option δ} {rows : List ρ} {row : ρ}
    (h : Linked digest check previous (rows ++ [row])) :
    Linked digest check previous rows ∧ check (lastDigest digest previous rows) row = .ok true := by
  induction rows generalizing previous with
  | nil => exact ⟨trivial, h.1⟩
  | cons r rows ih =>
    obtain ⟨hrows, hrow⟩ := ih h.2
    exact ⟨⟨h.1, hrows⟩, hrow⟩

theorem lastDigest_eq_getLast? (rows : List ρ) :
    lastDigest digest none rows = rows.getLast?.map digest := by
  rcases List.eq_nil_or_concat rows with rfl | ⟨rows, row, rfl⟩
  · rfl
  · simp [lastDigest_append_singleton]

section Commitment

variable {τ : Type} {image : ρ → τ} {Good : δ → Prop} {Collide : ρ → ρ → Prop}

/-- **The last digest commits to the chain.** Rows with one digest look the same and follow the same
digest, or they collide; so two chains that end in one digest look the same, or two rows collide.
The digests a row may name are those some row has, which are `Good`. -/
theorem map_eq_of_lastDigest
    (hgood : ∀ previous row, check previous row = .ok true → Good (digest row))
    (hsame : ∀ previous previous' row row', (∀ d ∈ previous, Good d) → (∀ d ∈ previous', Good d) →
      check previous row = .ok true → check previous' row' = .ok true → digest row = digest row' →
        (previous = previous' ∧ image row = image row') ∨ Collide row row')
    {rows rows' : List ρ} (h : Linked digest check none rows) (h' : Linked digest check none rows')
    (hlast : lastDigest digest none rows = lastDigest digest none rows') :
    rows.map image = rows'.map image ∨ ∃ row ∈ rows, ∃ row' ∈ rows', Collide row row' := by
  have hlastGood : ∀ {rows}, Linked digest check none rows →
    ∀ d ∈ lastDigest digest none rows, Good d := by
    intro rows h d hd
    rcases List.eq_nil_or_concat rows with rfl | ⟨rows, row, rfl⟩
    · cases hd
    · rw [List.concat_eq_append] at h hd
      rw [lastDigest_append_singleton] at hd
      cases hd
      exact hgood _ row (linked_of_append_singleton h).2
  -- from the last rows back to the first ones
  induction rows using List.reverseRecOn generalizing rows' with
  | nil =>
    rcases List.eq_nil_or_concat rows' with rfl | ⟨rows', row', rfl⟩
    · exact .inl rfl
    · rw [List.concat_eq_append, lastDigest_append_singleton] at hlast
      cases hlast
  | append_singleton rows row ih =>
    rcases List.eq_nil_or_concat rows' with rfl | ⟨rows', row', rfl⟩
    · rw [lastDigest_append_singleton] at hlast
      cases hlast
    · rw [List.concat_eq_append] at h' hlast ⊢
      rw [lastDigest_append_singleton, lastDigest_append_singleton] at hlast
      obtain ⟨hrows, hrow⟩ := linked_of_append_singleton h
      obtain ⟨hrows', hrow'⟩ := linked_of_append_singleton h'
      rcases hsame _ _ row row' (hlastGood hrows) (hlastGood hrows') hrow hrow'
          (Option.some.inj hlast) with ⟨hprevious, himage⟩ | hcollide
      · rcases ih hrows hrows' hprevious with heq | ⟨r, hr, r', hr', hcollide⟩
        · left
          rw [List.map_append, List.map_append, heq, List.map_singleton, List.map_singleton, himage]
        · exact .inr ⟨r, List.mem_append_left _ hr, r', List.mem_append_left _ hr', hcollide⟩
      · exact .inr ⟨row, List.mem_append_right _ List.mem_cons_self, row',
          List.mem_append_right _ List.mem_cons_self, hcollide⟩

end Commitment

end AtlasDb.Lib.HashChain
