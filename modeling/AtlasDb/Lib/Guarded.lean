import Mathlib.Data.List.Forall2

/-!
# Loops that may raise

A loop `[f(x) for x in xs]` over a function that may raise: it returns exactly when every round
does, and its results are those of its rounds.
-/

namespace AtlasDb.Lib

variable {ε α β : Type} {f : α → Except ε β} {xs : List α} {ys : List β}

theorem bind_eq_ok {x : Except ε α} {g : α → Except ε β} {b : β} :
    (x >>= g) = .ok b ↔ ∃ a, x = .ok a ∧ g a = .ok b := by
  cases x with
  | error e => simp [bind, Except.bind]
  | ok a => simp [bind, Except.bind]

theorem mapM_eq_ok : xs.mapM f = .ok ys ↔ List.Forall₂ (fun x y => f x = .ok y) xs ys := by
  induction xs generalizing ys with
  | nil => simp [pure, Except.pure, eq_comm]
  | cons x xs ih =>
    rw [List.mapM_cons]
    constructor
    · intro h
      obtain ⟨y, hy, h⟩ := bind_eq_ok.1 h
      obtain ⟨rest, hrest, h⟩ := bind_eq_ok.1 h
      cases h
      exact .cons hy (ih.1 hrest)
    · intro h
      cases h with
      | cons hy hrest => rw [hy, ih.2 hrest]; rfl

theorem exists_of_mapM {x : α} (h : xs.mapM f = .ok ys) (hx : x ∈ xs) : ∃ y ∈ ys, f x = .ok y := by
  rw [mapM_eq_ok] at h
  induction h with
  | nil => cases hx
  | cons hy _ ih =>
    rcases List.mem_cons.1 hx with rfl | hx
    · exact ⟨_, List.mem_cons_self, hy⟩
    · obtain ⟨y, hmem, hfy⟩ := ih hx
      exact ⟨y, List.mem_cons_of_mem _ hmem, hfy⟩

theorem exists_source {y : β} (h : xs.mapM f = .ok ys) (hy : y ∈ ys) : ∃ x ∈ xs, f x = .ok y := by
  rw [mapM_eq_ok] at h
  induction h with
  | nil => cases hy
  | cons hx _ ih =>
    rcases List.mem_cons.1 hy with rfl | hy
    · exact ⟨_, List.mem_cons_self, hx⟩
    · obtain ⟨x, hmem, hfx⟩ := ih hy
      exact ⟨x, List.mem_cons_of_mem _ hmem, hfx⟩

/-- A loop all of whose rounds return returns. -/
theorem mapM_returns (h : ∀ x ∈ xs, ∃ y, f x = .ok y) : ∃ ys, xs.mapM f = .ok ys := by
  induction xs with
  | nil => exact ⟨[], rfl⟩
  | cons x xs ih =>
    rw [List.forall_mem_cons] at h
    obtain ⟨y, hy⟩ := h.1
    obtain ⟨ys, hys⟩ := ih h.2
    exact ⟨y :: ys, by rw [List.mapM_cons, hy, hys]; rfl⟩

/-- A loop one of whose rounds raises raises. -/
theorem mapM_raises {x : α} (hx : x ∈ xs) (h : ∃ e, f x = .error e) :
    ∃ e, xs.mapM f = .error e := by
  cases hrun : xs.mapM f with
  | error e => exact ⟨e, rfl⟩
  | ok ys =>
    obtain ⟨y, -, hy⟩ := exists_of_mapM hrun hx
    obtain ⟨e, he⟩ := h
    rw [he] at hy
    cases hy

/-- Results that exist one by one exist as a list. -/
theorem exists_forall₂ {γ : Type} {p : α → γ → Prop} (h : ∀ x ∈ xs, ∃ z, p x z) :
    ∃ zs, List.Forall₂ p xs zs := by
  induction xs with
  | nil => exact ⟨[], .nil⟩
  | cons x xs ih =>
    rw [List.forall_mem_cons] at h
    obtain ⟨z, hz⟩ := h.1
    obtain ⟨zs, hzs⟩ := ih h.2
    exact ⟨z :: zs, .cons hz hzs⟩

end AtlasDb.Lib
